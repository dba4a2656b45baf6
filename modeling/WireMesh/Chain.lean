import Mathlib.Data.List.Chain
import Mathlib.Data.List.Basic
import WireMesh.Token

/-!
# Chains of tokens

What a verifier is for, apart from how it walks. Following the links of a token
up to its root gives its *chain* (`ChainOf`), a list of links from the leaf on.
A chain is accepted under a `Policy` when every link of it is admitted on its
own and every two adjacent links uphold the obligations of the link between
them (`Accepted`).

A policy only ever compares adjacent links; the consequences over whole chains
are drawn here:

* `Accepted.sound`: authority is handed over without a gap, the expiry of the
  leaf is within that of all its ancestors, and its scope within that of the
  ancestors it reaches through parent links;
* `Accepted.bounded`: a bound on re-delegation counts the links below.
-/

namespace WireMesh

/-! ## The links above a token -/

/-- A token of a chain, with its payload and the claims decoded from it. -/
structure Link where
  token : CapabilityToken
  payload : Bytes
  claims : TokenClaims
deriving DecidableEq

/-- The kind of the link to the token above. -/
def Link.kind (l : Link) : Option LinkKind := l.claims.upward.map Prod.fst

/-- The token's payload decodes to the link's claims. -/
@[grind cases]
structure Decoder.Reads (d : Decoder) (token : CapabilityToken) (l : Link) : Prop where
  token_eq : l.token = token
  payload_eq : token.payload = some l.payload
  claims_eq : d.claims l.payload = some l.claims

theorem Decoder.Reads.unique {d : Decoder} {token : CapabilityToken} {l l' : Link}
    (h : d.Reads token l) (h' : d.Reads token l') : l = l' := by
  obtain ⟨t, payload, claims⟩ := l
  obtain ⟨t', payload', claims'⟩ := l'
  grind

/-- The links from a token up to its root. -/
inductive ChainOf (d : Decoder) : CapabilityToken → List Link → Prop
  | root {token : CapabilityToken} {l : Link} :
      d.Reads token l → l.claims.upward = none → ChainOf d token [l]
  | link {token upper : CapabilityToken} {l : Link} {kind : LinkKind} {bytes : Bytes}
      {links : List Link} :
      d.Reads token l → l.claims.upward = some (kind, bytes) → d.token bytes = some upper →
        ChainOf d upper links → ChainOf d token (l :: links)

namespace ChainOf

variable {d : Decoder} {token : CapabilityToken} {l : Link} {links links' : List Link}

theorem ne_nil (h : ChainOf d token links) : links ≠ [] := by
  cases h <;> exact List.cons_ne_nil _ _

/-- The first link of a chain is read from its token. -/
theorem reads (h : ChainOf d token (l :: links)) : d.Reads token l := by
  cases h <;> assumption

theorem unique (h : ChainOf d token links) (h' : ChainOf d token links') : links = links' := by
  induction h generalizing links' with
  | root hl hup =>
    cases h' with
    | root hl' _ => rw [hl.unique hl']
    | link hl' hup' _ _ =>
      rw [hl.unique hl', hup'] at hup
      cases hup
  | link hl hup htoken _ ih =>
    cases h' with
    | root hl' hup' =>
      rw [hl.unique hl', hup'] at hup
      cases hup
    | link hl' hup' htoken' hlinks => grind [Decoder.Reads.unique]

theorem claims_eq (h : ChainOf d token links) :
    ∀ l ∈ links, d.claims l.payload = some l.claims := by
  induction h with
  | root hl _ => simpa using hl.claims_eq
  | link hl _ _ _ ih => exact List.forall_mem_cons.2 ⟨hl.claims_eq, ih⟩

end ChainOf

/-- The keys of the links are distinct, and none of them has been seen. -/
def Fresh {κ : Type*} (key : Link → κ) (seen : List κ) (links : List Link) : Prop :=
  (links.map key).Nodup ∧ ∀ l ∈ links, key l ∉ seen

theorem fresh_nil {κ : Type*} {key : Link → κ} {seen : List κ} : Fresh key seen [] := by
  simp [Fresh]

/-- Walking up, every link is new and is seen from then on. -/
theorem fresh_cons_iff {κ : Type*} {key : Link → κ} {seen seen' : List κ} {l : Link}
    {links : List Link} (hseen : ∀ k, k ∈ seen' ↔ k = key l ∨ k ∈ seen) :
    Fresh key seen (l :: links) ↔ key l ∉ seen ∧ Fresh key seen' links := by grind [Fresh]

/-! ## Policies -/

/-- What a verifier demands of a chain, at a given time. -/
structure Policy where
  identity : Identity
  now : ℕ
  /-- The second scope lies within the first one. -/
  narrows : CapabilityScope → CapabilityScope → Prop
  /-- The claims are in the grammar the verifier knows. -/
  grammar : TokenClaims → Prop
  unrevoked : TokenClaims → Prop
  /-- The conditions the second token carries hold, about the first one if there is one. -/
  holds : Option TokenClaims → TokenClaims → Prop

/-- The signature of the link verifies under its own key, which is its issuer's. -/
@[grind cases]
structure Identity.Vouches (identity : Identity) (l : Link) : Prop where
  signed : identity.verify l.claims.issuerKey
    (sig1ToBeSigned l.token.protectedHeader l.payload) l.token.signature = .ok true
  issuer : identity.deriveDeviceId l.claims.issuerKey.publicKey = l.claims.issuer

/-- The other identity is genuine by the primitives of this one: what it signs verifies under
    its key, the hash of which is its device-id. -/
@[grind cases]
structure Identity.Recognises (identity other : Identity) : Prop where
  signed : ∀ message, identity.verify other.identityKey message (other.sign message) = .ok true
  issuer : identity.deriveDeviceId other.identityKey.publicKey = other.deviceId

/-- What a genuine identity seals in its own name is vouched for. -/
theorem Identity.Recognises.vouches {identity other : Identity} (h : identity.Recognises other)
    {claims : TokenClaims} {payload : Bytes} (hkey : claims.issuerKey = other.identityKey)
    (hissuer : claims.issuer = other.deviceId) :
    identity.Vouches { token := other.seal payload, payload, claims } where
  signed := by
    rw [hkey]
    exact h.signed _
  issuer := by rw [hkey, hissuer, h.issuer]

/-- A token carries at most one link, and a grant-capability is never delegated from a
    parent. -/
@[grind cases]
structure TokenClaims.WellLinked (claims : TokenClaims) : Prop where
  exclusive : claims.parent = none ∨ claims.authorisedBy = none
  grant : claims.capability = manageGrant → claims.parent = none

theorem TokenClaims.wellLinked_iff {claims : TokenClaims} :
    claims.WellLinked ↔ ¬(claims.capability = manageGrant ∧ claims.parent.isSome) ∧
      ¬(claims.parent.isSome ∧ claims.authorisedBy.isSome) := by
  constructor
  · grind
  · rintro ⟨hgrant, hexclusive⟩
    constructor <;> grind [Option.isSome_iff_ne_none]

instance (claims : TokenClaims) : Decidable claims.WellLinked :=
  decidable_of_iff _ TokenClaims.wellLinked_iff.symm

/-- What a policy demands of a link on its own. -/
@[grind cases]
structure Policy.Admits (P : Policy) (l : Link) : Prop where
  vouched : P.identity.Vouches l
  grammar : P.grammar l.claims
  current : l.claims.CurrentAt P.now
  unrevoked : P.unrevoked l.claims
  wellLinked : l.claims.WellLinked

/-- What a link of the given kind demands of the tokens below and above it. -/
@[grind cases]
structure Upholds (narrows : CapabilityScope → CapabilityScope → Prop) (kind : LinkKind)
    (lower upper : TokenClaims) : Prop where
  bearer : upper.bearer = lower.issuer
  scope : narrows upper.scope lower.scope
  expires : lower.expires ≤ upper.expires
  remaining : Consumes upper.delegationsRemaining lower.delegationsRemaining
  /-- A parent has the same verb; an authoriser is a grant-capability for the verb. -/
  verb : match kind with
    | .parent => upper.capability = lower.capability
    | .authorisation => upper.capability = manageGrant ∧
        ∀ verb ∈ upper.grantsCapability, verb = lower.capability

/-- The token the conditions of the upper end of a link are about: what an authoriser
    permits, and nothing for a parent. -/
def LinkKind.subject : LinkKind → TokenClaims → Option TokenClaims
  | .parent, _ => none
  | .authorisation, lower => some lower

/-- What a policy demands of two adjacent links, the lower one first. -/
def Policy.Joins (P : Policy) (l u : Link) : Prop :=
  ∃ kind, l.kind = some kind ∧ Upholds P.narrows kind l.claims u.claims ∧
    P.holds (kind.subject l.claims) u.claims

/-- The links are accepted, the conditions of the first being about `subject`. -/
@[grind cases]
structure Accepted (P : Policy) (subject : Option TokenClaims) (links : List Link) : Prop where
  admits : ∀ l ∈ links, P.Admits l
  leaf : ∀ l ∈ links.head?, P.holds subject l.claims
  joined : links.IsChain P.Joins

/-- The guarantees a verifier gives about a chain from the leaf to the root. -/
@[grind cases]
structure Sound (identity : Identity) (narrows : CapabilityScope → CapabilityScope → Prop)
    (links : List Link) : Prop where
  vouched : ∀ l ∈ links, identity.Vouches l
  /-- Every upper token's bearer is the issuer of the token directly below it. -/
  handover : links.IsChain fun l u => u.claims.bearer = l.claims.issuer
  parent : links.IsChain fun l u => l.kind = some .parent →
    u.claims.capability = l.claims.capability ∧ narrows u.claims.scope l.claims.scope
  /-- The leaf's scope narrows that of the ancestors reached through parent links only. -/
  parents : ∀ leaf below u above, links = leaf :: below ++ u :: above →
    (∀ l ∈ leaf :: below, l.kind = some .parent) → narrows u.claims.scope leaf.claims.scope
  expires : ∀ leaf ∈ links.head?, ∀ l ∈ links, leaf.claims.expires ≤ l.claims.expires
  authorisation : links.IsChain fun l u => l.kind = some .authorisation →
    u.claims.capability = manageGrant ∧ narrows u.claims.scope l.claims.scope ∧
      l.claims.expires ≤ u.claims.expires

/-- Every bound on re-delegation in the chain bounds the number of links below it, which
    carry bounds too, strictly decreasing towards the leaf. -/
def Bounded (links : List Link) : Prop :=
  ∀ below u above n, links = below ++ u :: above → u.claims.delegationsRemaining = some n →
    below.length ≤ n ∧ (∀ l ∈ below, l.claims.delegationsRemaining.isSome) ∧
      (below ++ [u]).Pairwise fun l u => ∃ m k, l.claims.delegationsRemaining = some m ∧
        u.claims.delegationsRemaining = some k ∧ m < k

namespace Accepted

variable {P : Policy} {subject : Option TokenClaims} {l u : Link} {links : List Link}

theorem singleton_iff :
    Accepted P subject [l] ↔ P.Admits l ∧ P.holds subject l.claims :=
  ⟨fun h => ⟨h.admits l List.mem_cons_self, h.leaf l rfl⟩, fun h =>
    ⟨by simpa using h.1, by simpa using h.2, .singleton l⟩⟩

/-- A chain is accepted iff its leaf is, and the rest of it from the leaf on. -/
theorem cons_cons_iff :
    Accepted P subject (l :: u :: links) ↔
      P.Admits l ∧ P.holds subject l.claims ∧ ∃ kind, l.kind = some kind ∧
        Upholds P.narrows kind l.claims u.claims ∧
        Accepted P (kind.subject l.claims) (u :: links) := by
  constructor
  · intro h
    obtain ⟨⟨kind, hkind, hup, hholds⟩, hjoined⟩ := List.isChain_cons_cons.1 h.joined
    obtain ⟨hl, hadmits⟩ := List.forall_mem_cons.1 h.admits
    exact ⟨hl, h.leaf l rfl, kind, hkind, hup, hadmits, by simpa using hholds, hjoined⟩
  · rintro ⟨hl, hleaf, kind, hkind, hup, h⟩
    exact ⟨List.forall_mem_cons.2 ⟨hl, h.admits⟩, by simpa using hleaf,
      List.isChain_cons_cons.2 ⟨⟨kind, hkind, hup, h.leaf u rfl⟩, h.joined⟩⟩

/-- What a policy accepts another one accepts that demands no more of the links. -/
theorem imp {P' : Policy} (h : Accepted P subject links)
    (hadmits : ∀ l ∈ links, P.Admits l → P'.Admits l)
    (hnarrows : ∀ l ∈ links, ∀ u ∈ links, P.narrows u.claims.scope l.claims.scope →
      P'.narrows u.claims.scope l.claims.scope)
    (hholds : ∀ s, ∀ l ∈ links, P.holds s l.claims → P'.holds s l.claims) :
    Accepted P' subject links where
  admits l hl := hadmits l hl (h.admits l hl)
  leaf l hl := hholds subject l (List.mem_of_mem_head? hl) (h.leaf l hl)
  joined := h.joined.imp_of_mem_imp fun l u hl hu ⟨kind, hkind, hup, huholds⟩ =>
    ⟨kind, hkind, { hup with scope := hnarrows l hl u hu hup.scope }, hholds _ u hu huholds⟩

/-! ## Consequences over whole chains -/

theorem joins_upholds (h : Accepted P subject links) :
    links.IsChain fun l u => ∃ kind, l.kind = some kind ∧
      Upholds P.narrows kind l.claims u.claims :=
  h.joined.imp fun _ _ ⟨kind, hkind, hup, _⟩ => ⟨kind, hkind, hup⟩

/-- Narrowing adds up along parent links. -/
theorem narrows_of_parents (htrans : ∀ a b c, P.narrows a b → P.narrows b c → P.narrows a c)
    {leaf : Link} {below above : List Link}
    (h : (leaf :: below ++ u :: above).IsChain fun l u => l.kind = some .parent →
      P.narrows u.claims.scope l.claims.scope)
    (hparent : ∀ l ∈ leaf :: below, l.kind = some .parent) :
    P.narrows u.claims.scope leaf.claims.scope := by
  induction below generalizing leaf with
  | nil => exact (List.isChain_cons_cons.1 h).1 (hparent leaf List.mem_cons_self)
  | cons b below ih => grind

/-- What a verifier guarantees of the chains it accepts, when narrowing is transitive. -/
theorem sound (h : Accepted P subject links)
    (htrans : ∀ a b c, P.narrows a b → P.narrows b c → P.narrows a c) :
    Sound P.identity P.narrows links where
  vouched l hl := (h.admits l hl).vouched
  handover := h.joins_upholds.imp fun _ _ ⟨_, _, hup⟩ => hup.bearer
  parent := h.joins_upholds.imp fun l u ⟨kind, hkind, hup⟩ hparent => by grind
  parents leaf below u above hlinks hparent := by grind [narrows_of_parents, joins_upholds]
  expires leaf hleaf l hl := by
    have hle : (links.map fun l => l.claims.expires).IsChain (· ≤ ·) :=
      (List.isChain_map _).2 (h.joins_upholds.imp fun _ _ ⟨_, _, hup⟩ => hup.expires)
    obtain ⟨rest, rfl⟩ := List.head?_eq_some_iff.1 hleaf
    grind [List.IsChain.rel_cons]
  authorisation := h.joins_upholds.imp fun l u ⟨kind, hkind, hup⟩ hauth => by grind

/-- Going down from a bounded link, the bounds decrease, once for each link. -/
theorem remaining_below {below : List Link} {n : ℕ}
    (h : (below ++ [u]).IsChain fun l u =>
      Consumes u.claims.delegationsRemaining l.claims.delegationsRemaining)
    (hn : u.claims.delegationsRemaining = some n) :
    below.length ≤ n ∧ (∀ l ∈ below, l.claims.delegationsRemaining.isSome) ∧
      (below ++ [u]).IsChain fun l u => ∃ m k, l.claims.delegationsRemaining = some m ∧
        u.claims.delegationsRemaining = some k ∧ m < k := by
  induction below using List.reverseRecOn generalizing u n with
  | nil => exact ⟨Nat.zero_le n, by simp, .singleton u⟩
  | append_singleton below b ih =>
    rw [List.append_assoc, List.singleton_append] at h ⊢
    obtain ⟨hbelow, hb, -⟩ := List.isChain_append_cons_cons.1 h
    -- The link directly below carries a smaller bound, and bounds the links below it.
    grind [consumes_some, List.isChain_append_cons_cons]

theorem bounded (h : Accepted P subject links) : Bounded links := by
  intro below u above n hlinks hn
  subst hlinks
  have hchain := h.joins_upholds.imp fun _ _ ⟨_, _, hup⟩ => hup.remaining
  rw [List.isChain_split] at hchain
  obtain ⟨hlen, hsome, hdec⟩ := remaining_below hchain.1 hn
  let R : Link → Link → Prop := fun l u => ∃ m k, l.claims.delegationsRemaining = some m ∧
    u.claims.delegationsRemaining = some k ∧ m < k
  have : Trans R R R := ⟨by grind⟩
  exact ⟨hlen, hsome, List.IsChain.pairwise (R := R) hdec⟩

end Accepted

/-! ## Sample chains -/

/-- The link of the token with the given claims, sealed by a sample identity. -/
def Link.sample (n : UInt8) (claims : TokenClaims) : Link where
  token := (Identity.sample n).seal claims.encode
  payload := claims.encode
  claims := claims

/-- What a sample identity seals in its own name is vouched for. -/
theorem Identity.sample_recognises {m n : UInt8} :
    (Identity.sample m).Recognises (.sample n) where
  signed _ := congrArg Except.ok (decide_eq_true rfl)
  issuer := rfl

theorem Identity.sample_vouches {m n : UInt8} {claims : TokenClaims}
    (hkey : claims.issuerKey = (Identity.sample n).identityKey)
    (hissuer : claims.issuer = (Identity.sample n).deviceId) :
    (Identity.sample m).Vouches (.sample n claims) :=
  Identity.sample_recognises.vouches hkey hissuer

theorem Link.sample_reads {d : Decoder} {n : UInt8} {claims : TokenClaims}
    (h : d.claims claims.encode = some claims) :
    d.Reads (Link.sample n claims).token (.sample n claims) :=
  ⟨rfl, rfl, h⟩

/-- Links that are read back from their tokens, each embedding the next one, are a chain. -/
theorem ChainOf.of_embedded {d : Decoder} {l : Link} {links : List Link}
    (hreads : ∀ l' ∈ l :: links, d.Reads l'.token l' ∧ d.token l'.token.encode = some l'.token)
    (hembeds : (l :: links).IsChain fun l u =>
      ∃ kind, l.claims.upward = some (kind, u.token.encode))
    (hroot : ((l :: links).getLast (List.cons_ne_nil _ _)).claims.upward = none) :
    ChainOf d l.token (l :: links) := by
  induction links generalizing l with
  | nil => exact .root (hreads l List.mem_cons_self).1 hroot
  | cons u links ih =>
    obtain ⟨⟨kind, hup⟩, hembeds⟩ := List.isChain_cons_cons.1 hembeds
    obtain ⟨hl, hreads⟩ := List.forall_mem_cons.1 hreads
    exact .link hl.1 hup (hreads u List.mem_cons_self).2 (ih hreads hembeds hroot)

/-- So are sample links, for a decoder that knows them. -/
theorem ChainOf.of_samples {d : Decoder} {l : Link} {links : List Link}
    (hreads : ∀ n claims, .sample n claims ∈ l :: links →
      d.Reads (Link.sample n claims).token (.sample n claims) ∧
        d.token (Link.sample n claims).token.encode = some (Link.sample n claims).token)
    (hsamples : ∀ l' ∈ l :: links, ∃ n, l' = .sample n l'.claims)
    (hembeds : (l :: links).IsChain fun l u =>
      ∃ kind, l.claims.upward = some (kind, u.token.encode))
    (hroot : ((l :: links).getLast (List.cons_ne_nil _ _)).claims.upward = none) :
    ChainOf d l.token (l :: links) := by grind [of_embedded]

end WireMesh
