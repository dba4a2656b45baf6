import Mathlib.Data.Finset.Sort
import Mathlib.Data.String.Basic
import WireMesh.Fallible
import WireMesh.Pattern
import WireMesh.Rust.Verbs

/-!
# Negotiating a handshake

Two peers speak the lower of their versions, and the domains that both advertise (`handshake.ts`,
`handshake.rs`). TypeScript drops a domain that is retired. Rust refuses a frame with a domain that
it does not take for valid, and a version above its own.

* `DomainId.validate_iff_known`: the domains of the specification's grammar are valid in Rust, apart
  from one that is retired and four that it does not know.
* `negotiation_agrees`: when the languages agree, in whatever order, how often and on which side the
  domains are advertised: both end at version 1 with a domain, or both fail.
* `negotiation_differs`: where they do not.
-/

namespace WireMesh

open Pattern Computability

/-- What a negotiation reads of a frame. -/
structure Handshake where
  version : ℕ
  domains : List String

/-! ## TypeScript -/

namespace TypeScript

def retiredDomains : List String := ["core/federation"]

structure NegotiationResult where
  ok : Bool
  version : ℕ
  sharedDomains : List String
deriving DecidableEq

def negotiate (here remote : Handshake) : NegotiationResult :=
  let version := min here.version remote.version
  let sharedDomains := here.domains.filter fun domain =>
    domain ∉ retiredDomains ∧ domain ∈ remote.domains
  { ok := 1 ≤ version ∧ 0 < sharedDomains.length
    version
    sharedDomains }

end TypeScript

/-! ## Rust -/

namespace Rust

def coreDomains : List String := ["core/management", "core/exec", "core/data", "core/federation"]

def retiredDomain : String := "core/federation"

inductive DomainError
  | retired (domain : String)
  | malformed (domain : String)
deriving DecidableEq

namespace DomainId

def isLabelEnd (c : Char) : Bool := isAsciiLowercase c || isAsciiDigit c

def isLabel : List Char → Bool
  | [] => false
  | [c] => isLabelEnd c
  | c :: rest => isLabelEnd c && (rest.getLast?.any isLabelEnd) &&
      rest.dropLast.all CapabilityVerb.isCoreChar

def isDottedDnsName (name : List Char) : Bool :=
  let labels := name.splitOn '.'
  2 ≤ labels.length && labels.all isLabel

def isNamespacedDomain (domain : List Char) : Bool :=
  match splitOnce '/' domain with
  | none => false
  | some (registrant, localName) => CapabilityVerb.looseOk localName && isDottedDnsName registrant

def isPrivateUseDomain (domain : List Char) : Bool :=
  match domain with
  | 'x' :: '-' :: rest => CapabilityVerb.looseOk rest
  | _ => false

def validate (domain : String) : Except DomainError Unit :=
  if domain ∈ coreDomains then
    if domain = retiredDomain then .error (.retired domain) else .ok ()
  else if isNamespacedDomain domain.toList || isPrivateUseDomain domain.toList then .ok ()
  else .error (.malformed domain)

end DomainId

def supportedProtocolVersion : ℕ := 1

inductive Side
  | here
  | remote
deriving DecidableEq

inductive HandshakeError
  | invalidDomain (side : Side) (error : DomainError)
  | unsupportedVersion (negotiated supported : ℕ)
deriving DecidableEq

structure NegotiationResult where
  version : ℕ
  sharedDomains : List String
deriving DecidableEq

def Handshake.validate (frame : Handshake) : Except DomainError Unit :=
  frame.domains.forM DomainId.validate

/-- The domains that both sides have, each once and in order. -/
def negotiate (here remote : Handshake) : Except HandshakeError NegotiationResult := do
  (Handshake.validate here).mapError (HandshakeError.invalidDomain .here)
  (Handshake.validate remote).mapError (HandshakeError.invalidDomain .remote)
  let version := min here.version remote.version
  if version > supportedProtocolVersion then
    throw (.unsupportedVersion version supportedProtocolVersion)
  let sharedDomains := (here.domains.toFinset ∩ remote.domains.toFinset).sort
  return { version, sharedDomains }

end Rust

/-! ## The grammar of domains -/

/-- `core-domain-name` -/
def coreDomainNames : List String :=
  ["core/management", "core/exec", "core/data", "core/federation", "core/webrtc", "core/room",
    "core/bulk", "core/version"]

/-- `[a-z0-9]([a-z0-9-]*[a-z0-9])?` -/
def labelPattern : Language Char :=
  one Rust.DomainId.isLabelEnd *
    (1 + (one Rust.CapabilityVerb.isCoreChar)∗ * one Rust.DomainId.isLabelEnd)

/-- A label, and one more or more after dots. -/
def registrantPattern : Language Char :=
  labelPattern * ((literal ['.'] * labelPattern) * (literal ['.'] * labelPattern)∗)

def corePattern : Language Char := { w | ∃ name ∈ coreDomainNames, w = name.toList }

/-- `domain-id` -/
def domainPattern : Language Char :=
  corePattern +
    registrantPattern * (literal ['/'] * plus Rust.CapabilityVerb.isLooseChar) +
    literal ['x', '-'] * plus Rust.CapabilityVerb.isLooseChar

/-- The domains of the specification that are retired, or that Rust does not know. -/
def Rust.unknownDomains : List String :=
  ["core/federation", "core/webrtc", "core/room", "core/bulk", "core/version"]

namespace Rust.DomainId

theorem isLabel_of_mem {w : List Char} (h : w ∈ labelPattern) : isLabel w = true := by
  rw [labelPattern, mem_one_mul] at h
  obtain ⟨c, rest, hc, hrest, rfl⟩ := h
  rcases (Language.mem_add ..).1 hrest with hrest | hrest
  · obtain rfl := (Language.mem_one _).1 hrest
    exact hc
  · obtain ⟨inner, hinner, _, ⟨d, hd, rfl⟩, rfl⟩ := Language.mem_mul.1 hrest
    have hall : inner.all CapabilityVerb.isCoreChar = true :=
      List.all_eq_true.2 (mem_kstar_one.1 hinner)
    cases inner with
    | nil => simp [isLabel, hc, hd]
    | cons e inner =>
      change (isLabelEnd c && ((e :: inner) ++ [d]).getLast?.any isLabelEnd &&
        ((e :: inner) ++ [d]).dropLast.all CapabilityVerb.isCoreChar) = true
      rw [List.getLast?_concat, List.dropLast_concat, hc, hall]
      simp [hd]

theorem notMem_of_mem_label {w : List Char} (h : w ∈ labelPattern) {c : Char}
    (hend : isLabelEnd c = false) (hcore : CapabilityVerb.isCoreChar c = false) : c ∉ w := by
  rw [labelPattern, mem_one_mul] at h
  obtain ⟨d, rest, hd, hrest, rfl⟩ := h
  have hne : ∀ e, isLabelEnd e = true → c ≠ e := by
    rintro e he rfl
    simp [hend] at he
  rcases (Language.mem_add ..).1 hrest with hrest | hrest
  · obtain rfl := (Language.mem_one _).1 hrest
    simpa using hne d hd
  · obtain ⟨inner, hinner, _, ⟨e, he, rfl⟩, rfl⟩ := Language.mem_mul.1 hrest
    have hnot := CapabilityVerb.notMem_of_class (mem_kstar_one.1 hinner) hcore
    simp [hne d hd, hne e he, hnot]

/-- The labels of a registrant. -/
theorem exists_labels {w : List Char} (h : w ∈ registrantPattern) :
    ∃ labels : List (List Char), 2 ≤ labels.length ∧ (∀ l ∈ labels, l ∈ labelPattern) ∧
      w = List.intercalate ['.'] labels := by
  have hrest : ∀ parts : List (List Char), (∀ part ∈ parts, part ∈ literal ['.'] * labelPattern) →
      ∃ labels : List (List Char), labels.length = parts.length ∧
        (∀ l ∈ labels, l ∈ labelPattern) ∧
        ∀ first, first ++ parts.flatten = List.intercalate ['.'] (first :: labels) := by
    intro parts hparts
    induction parts with
    | nil => exact ⟨[], rfl, by simp, by simp [List.intercalate]⟩
    | cons part parts ih =>
      obtain ⟨labels, hlength, hlabels, hjoin⟩ :=
        ih fun p hp => hparts p (List.mem_cons_of_mem _ hp)
      obtain ⟨l, hl, rfl⟩ := mem_literal_mul.1 (hparts part List.mem_cons_self)
      refine ⟨l :: labels, by simp [hlength], List.forall_mem_cons.2 ⟨hl, hlabels⟩, fun first => ?_⟩
      have := hjoin l
      simp only [List.intercalate, List.intersperse_cons_cons, List.flatten_cons] at this ⊢
      rw [← this]
      simp
  obtain ⟨first, hfirst, _, hmore, rfl⟩ := Language.mem_mul.1 h
  obtain ⟨part, hpart, _, hstar, rfl⟩ := Language.mem_mul.1 hmore
  obtain ⟨parts, rfl, hparts⟩ := Language.mem_kstar.1 hstar
  obtain ⟨labels, hlength, hlabels, hjoin⟩ :=
    hrest (part :: parts) (List.forall_mem_cons.2 ⟨hpart, hparts⟩)
  refine ⟨first :: labels, by simp [hlength], List.forall_mem_cons.2 ⟨hfirst, hlabels⟩, ?_⟩
  rw [← hjoin, List.flatten_cons]

theorem notMem_intercalate {c sep : Char} (hc : c ≠ sep) {parts : List (List Char)}
    (h : ∀ part ∈ parts, c ∉ part) : c ∉ List.intercalate [sep] parts := by
  induction parts with
  | nil => simp [List.intercalate]
  | cons part parts ih =>
    cases parts with
    | nil => simpa [List.intercalate] using h part
    | cons next parts =>
      have hrest := ih fun part hpart => h part (List.mem_cons_of_mem _ hpart)
      simp only [List.intercalate] at hrest
      simp [List.intercalate, hc, h part List.mem_cons_self, hrest]

theorem isDottedDnsName_of_mem {w : List Char} (h : w ∈ registrantPattern) :
    isDottedDnsName w = true ∧ '/' ∉ w := by
  obtain ⟨labels, hlength, hlabels, rfl⟩ := exists_labels h
  have hne : labels ≠ [] := List.ne_nil_of_length_pos (by omega)
  have hsplit := List.splitOn_intercalate '.'
    (fun l hl => notMem_of_mem_label (hlabels l hl) (by decide) (by decide)) hne
  refine ⟨?_, fun hmem => ?_⟩
  · simp only [isDottedDnsName, hsplit, Bool.and_eq_true, decide_eq_true_eq, List.all_eq_true]
    exact ⟨hlength, fun l hl => isLabel_of_mem (hlabels l hl)⟩
  · exact notMem_intercalate (by decide)
      (fun l hl => notMem_of_mem_label (hlabels l hl) (by decide) (by decide)) hmem

theorem validate_of_known {domain : String} (h : domain.toList ∈ domainPattern)
    (hknown : domain ∉ unknownDomains) : validate domain = .ok () := by
  rw [validate]
  split_ifs with hcore hretired hother
  · exact absurd (hretired ▸ by decide) hknown
  · rfl
  · rfl
  · exfalso
    rw [domainPattern, Language.mem_add, Language.mem_add] at h
    rcases h with (⟨name, hname, hdomain⟩ | h) | h
    · obtain rfl := String.toList_injective hdomain
      simp only [coreDomainNames, coreDomains, unknownDomains] at hname hcore hknown
      grind
    · obtain ⟨registrant, hregistrant, localName, hlocal, hdomain⟩ := mem_mul_literal_mul.1 h
      obtain ⟨hdns, hslash⟩ := isDottedDnsName_of_mem hregistrant
      refine hother ?_
      rw [isNamespacedDomain, splitOnce_eq_some_iff.2 ⟨hdomain, hslash⟩]
      simp [CapabilityVerb.looseOk_iff.2 hlocal, hdns]
    · obtain ⟨rest, hrest, hdomain⟩ := mem_literal_mul.1 h
      refine hother ?_
      rw [hdomain]
      simp [isPrivateUseDomain, CapabilityVerb.looseOk_iff.2 hrest]

/-- The domains of the grammar are valid, apart from five. -/
theorem validate_iff_known {domain : String} (h : domain.toList ∈ domainPattern) :
    validate domain = .ok () ↔ domain ∉ unknownDomains := by
  refine ⟨fun hvalid hunknown => ?_, validate_of_known h⟩
  have hrefused : ∀ d ∈ unknownDomains, validate d ≠ .ok () := by decide +kernel
  exact hrefused domain hunknown hvalid

end Rust.DomainId

/-! ## Negotiations -/

/-- The version and the set of shared domains, or none if the negotiation fails. -/
def TypeScript.outcome (here remote : Handshake) : Option (ℕ × Finset String) :=
  let result := TypeScript.negotiate here remote
  if result.ok then some (result.version, result.sharedDomains.toFinset) else none

def Rust.outcome (here remote : Handshake) : Option (ℕ × Finset String) :=
  (Rust.negotiate here remote).toOption.map fun result =>
    (result.version, result.sharedDomains.toFinset)

namespace Handshake

/-- All domains are of the grammar. -/
def Grammatical (frame : Handshake) : Prop :=
  ∀ domain ∈ frame.domains, domain.toList ∈ domainPattern

/-- Rust knows all domains, and none is retired. -/
def Known (frame : Handshake) : Prop := ∀ domain ∈ frame.domains, domain ∉ Rust.unknownDomains

theorem validate_iff_known {frame : Handshake} (h : frame.Grammatical) :
    Rust.Handshake.validate frame = .ok () ↔ frame.Known :=
  forM_eq_ok_iff.trans (forall₂_congr fun domain hdomain =>
    Rust.DomainId.validate_iff_known (h domain hdomain))

variable {here remote : Handshake}

theorem typeScript_outcome_eq_some {version : ℕ} {domains : Finset String} :
    TypeScript.outcome here remote = some (version, domains) ↔
      1 ≤ min here.version remote.version ∧ domains.Nonempty ∧
        version = min here.version remote.version ∧
        domains = (here.domains.toFinset ∩ remote.domains.toFinset) \
          TypeScript.retiredDomains.toFinset := by
  have hset : (TypeScript.negotiate here remote).sharedDomains.toFinset =
      (here.domains.toFinset ∩ remote.domains.toFinset) \
        TypeScript.retiredDomains.toFinset := by
    ext domain
    simp only [TypeScript.negotiate, List.mem_toFinset, List.mem_filter, decide_eq_true_eq,
      Finset.mem_sdiff, Finset.mem_inter]
    tauto
  have hpos : 0 < (TypeScript.negotiate here remote).sharedDomains.length ↔
      (TypeScript.negotiate here remote).sharedDomains.toFinset.Nonempty := by
    rw [List.length_pos_iff, List.toFinset_nonempty_iff]
  have hok : (TypeScript.negotiate here remote).ok = true ↔
      1 ≤ min here.version remote.version ∧
        0 < (TypeScript.negotiate here remote).sharedDomains.length := by
    simp only [TypeScript.negotiate, decide_eq_true_eq]
  rw [TypeScript.outcome]
  simp only [Option.ite_none_right_eq_some, Option.some.injEq, Prod.mk.injEq, hok, hpos, hset]
  constructor
  · rintro ⟨⟨hversion, hne⟩, rfl, rfl⟩
    exact ⟨hversion, hne, rfl, rfl⟩
  · rintro ⟨hversion, hne, rfl, rfl⟩
    exact ⟨⟨hversion, hne⟩, rfl, rfl⟩

theorem rust_outcome_eq_some (hhere : here.Grammatical) (hremote : remote.Grammatical)
    {version : ℕ} {domains : Finset String} :
    Rust.outcome here remote = some (version, domains) ↔
      here.Known ∧ remote.Known ∧ min here.version remote.version ≤ 1 ∧
        version = min here.version remote.version ∧
        domains = here.domains.toFinset ∩ remote.domains.toFinset := by
  rw [← validate_iff_known hhere, ← validate_iff_known hremote, Rust.outcome]
  constructor
  · intro h
    obtain ⟨result, hresult, hpair⟩ := exists_eq_ok_of_toOption h
    rw [Rust.negotiate] at hresult
    obtain ⟨_, hfirst, hresult⟩ := of_bind_eq_ok hresult
    obtain ⟨_, hsecond, hresult⟩ := of_bind_eq_ok hresult
    obtain ⟨hversion, hresult⟩ := of_guard_eq_ok hresult
    cases hresult
    cases hpair
    exact ⟨of_mapError_eq_ok hfirst, of_mapError_eq_ok hsecond, not_lt.1 hversion, rfl,
      by ext domain; simp⟩
  · rintro ⟨hfirst, hsecond, hversion, rfl, rfl⟩
    rw [Rust.negotiate, hfirst, hsecond]
    simp only [mapError_ok, ok_bind]
    rw [if_neg (show ¬_ > Rust.supportedProtocolVersion from not_lt.2 hversion)]
    refine congrArg some (Prod.ext rfl ?_)
    ext domain
    simp

/-- Neither side matters, nor how often and in which order domains are advertised. -/
theorem typeScript_outcome_congr {here' remote' : Handshake}
    (hversion : min here'.version remote'.version = min here.version remote.version)
    (hdomains : here'.domains.toFinset ∩ remote'.domains.toFinset =
      here.domains.toFinset ∩ remote.domains.toFinset) :
    TypeScript.outcome here' remote' = TypeScript.outcome here remote := by
  refine Option.ext fun ⟨version, domains⟩ => ?_
  rw [typeScript_outcome_eq_some, typeScript_outcome_eq_some, hversion, hdomains]

theorem rust_outcome_congr {here' remote' : Handshake} (hhere : here.Grammatical)
    (hremote : remote.Grammatical) (hhere' : here'.Grammatical) (hremote' : remote'.Grammatical)
    (hknown : here'.Known ∧ remote'.Known ↔ here.Known ∧ remote.Known)
    (hversion : min here'.version remote'.version = min here.version remote.version)
    (hdomains : here'.domains.toFinset ∩ remote'.domains.toFinset =
      here.domains.toFinset ∩ remote.domains.toFinset) :
    Rust.outcome here' remote' = Rust.outcome here remote := by
  refine Option.ext fun ⟨version, domains⟩ => ?_
  rw [rust_outcome_eq_some hhere hremote, rust_outcome_eq_some hhere' hremote', hversion, hdomains,
    ← and_assoc, hknown, and_assoc]

theorem typeScript_outcome_eq_none : TypeScript.outcome here remote = none ↔
    min here.version remote.version = 0 ∨
      ∀ d ∈ here.domains, d ∈ remote.domains → d ∈ TypeScript.retiredDomains := by
  rw [Option.eq_none_iff_forall_ne_some]
  constructor
  · intro h
    by_contra hnot
    push Not at hnot
    obtain ⟨hversion, d, hd, hd', hretired⟩ := hnot
    exact h (_, _) (typeScript_outcome_eq_some.2
      ⟨Nat.one_le_iff_ne_zero.2 hversion, ⟨d, by simp [hd, hd', hretired]⟩, rfl, rfl⟩)
  · rintro h ⟨version, domains⟩ hsome
    obtain ⟨hversion, ⟨d, hd⟩, -, rfl⟩ := typeScript_outcome_eq_some.1 hsome
    simp only [Finset.mem_sdiff, Finset.mem_inter, List.mem_toFinset] at hd
    rcases h with h | h
    · omega
    · exact hd.2 (h d hd.1.1 hd.1.2)

theorem rust_outcome_eq_none (hhere : here.Grammatical) (hremote : remote.Grammatical) :
    Rust.outcome here remote = none ↔
      1 < min here.version remote.version ∨ ¬(here.Known ∧ remote.Known) := by
  rw [Option.eq_none_iff_forall_ne_some]
  constructor
  · intro h
    by_contra hnot
    rw [not_or, not_not, not_lt] at hnot
    exact h (_, _) ((rust_outcome_eq_some hhere hremote).2
      ⟨hnot.2.1, hnot.2.2, hnot.1, rfl, rfl⟩)
  · rintro h ⟨version, domains⟩ hsome
    obtain ⟨hfirst, hsecond, hversion, -⟩ := (rust_outcome_eq_some hhere hremote).1 hsome
    exact h.elim (fun h => absurd h (not_lt.2 hversion)) fun h => h ⟨hfirst, hsecond⟩

/-- None of the known domains is retired. -/
theorem Known.sdiff_retired (h : here.Known) (s : Finset String) :
    (here.domains.toFinset ∩ s) \ TypeScript.retiredDomains.toFinset =
      here.domains.toFinset ∩ s := by
  refine Finset.sdiff_eq_self_of_disjoint (Finset.disjoint_left.2 fun d hd hretired => ?_)
  rw [Finset.mem_inter, List.mem_toFinset] at hd
  obtain rfl : d = "core/federation" := by simpa [TypeScript.retiredDomains] using hretired
  exact h _ hd.1 (by decide)

theorem outcome_comm (hhere : here.Grammatical) (hremote : remote.Grammatical) :
    TypeScript.outcome remote here = TypeScript.outcome here remote ∧
      Rust.outcome remote here = Rust.outcome here remote := by
  have hswap : remote.domains.toFinset ∩ here.domains.toFinset =
      here.domains.toFinset ∩ remote.domains.toFinset := Finset.inter_comm ..
  exact ⟨typeScript_outcome_congr (min_comm ..) hswap,
    rust_outcome_congr hhere hremote hremote hhere and_comm (min_comm ..) hswap⟩

theorem outcome_reorder (hhere : here.Grammatical) (hremote : remote.Grammatical)
    {domains : List String} (hdomains : ∀ d, d ∈ domains ↔ d ∈ here.domains) :
    TypeScript.outcome { here with domains } remote = TypeScript.outcome here remote ∧
      Rust.outcome { here with domains } remote = Rust.outcome here remote := by
  have hset : domains.toFinset = here.domains.toFinset := by
    ext d
    simp [hdomains]
  have hgrammar : Grammatical { here with domains } := fun d hd => hhere d ((hdomains d).1 hd)
  have hknown : Known { here with domains } ↔ here.Known :=
    forall_congr' fun d => by rw [hdomains]
  exact ⟨typeScript_outcome_congr rfl (by rw [hset]),
    rust_outcome_congr hhere hremote hgrammar hremote (by rw [hknown]) rfl (by rw [hset])⟩

/-- The languages agree if both succeed with the shared domains, or each of them refuses. -/
theorem outcome_eq_iff (hhere : here.Grammatical) (hremote : remote.Grammatical) :
    TypeScript.outcome here remote = Rust.outcome here remote ↔
      (min here.version remote.version = 1 ∧ here.Known ∧ remote.Known ∧
        ∃ d ∈ here.domains, d ∈ remote.domains) ∨
      TypeScript.outcome here remote = none ∧ Rust.outcome here remote = none := by
  constructor
  · intro hagree
    cases hrust : Rust.outcome here remote with
    | none => exact .inr ⟨hagree.trans hrust, rfl⟩
    | some result =>
      obtain ⟨hknown, hknown', hle, -, hshared⟩ := (rust_outcome_eq_some hhere hremote).1 hrust
      obtain ⟨hge, ⟨d, hd⟩, -⟩ := typeScript_outcome_eq_some.1 (hagree.trans hrust)
      rw [hshared, Finset.mem_inter, List.mem_toFinset, List.mem_toFinset] at hd
      exact .inl ⟨le_antisymm hle hge, hknown, hknown', d, hd⟩
  · rintro (⟨hversion, hknown, hknown', d, hd, hd'⟩ | ⟨hts, hrust⟩)
    · rw [(rust_outcome_eq_some hhere hremote).2 ⟨hknown, hknown', hversion.le, rfl, rfl⟩,
        typeScript_outcome_eq_some, hknown.sdiff_retired]
      exact ⟨hversion.ge, ⟨d, by simp [hd, hd']⟩, rfl, rfl⟩
    · rw [hts, hrust]

end Handshake

open Handshake

/-- On domains of the grammar the two languages agree on the result, or both fail; which does not
    depend on the side, on the order or the number of times that a domain is advertised, or on a
    domain that one side alone has. It is so if and only if all domains are known, the lower version
    is 1 and a domain is shared, or each language has a reason of its own to refuse. -/
theorem negotiation_agrees {here remote : Handshake} (hhere : here.Grammatical)
    (hremote : remote.Grammatical) {domain : String} (hdomain : domain.toList ∈ domainPattern)
    (hnew : domain ∉ remote.domains) :
    let added : Handshake := { here with domains := domain :: here.domains }
    (TypeScript.outcome here remote = Rust.outcome here remote ∧
      (TypeScript.outcome remote here = TypeScript.outcome here remote ∧
        Rust.outcome remote here = Rust.outcome here remote) ∧
      (∀ domains' : List String, (∀ d, d ∈ domains' ↔ d ∈ here.domains) →
        TypeScript.outcome { here with domains := domains' } remote =
            TypeScript.outcome here remote ∧
          Rust.outcome { here with domains := domains' } remote = Rust.outcome here remote) ∧
      TypeScript.outcome added remote = TypeScript.outcome here remote ∧
        Rust.outcome added remote = Rust.outcome here remote) ↔
    (min here.version remote.version = 1 ∧ added.Known ∧ remote.Known ∧
        ∃ d ∈ here.domains, d ∈ remote.domains) ∨
      ((min here.version remote.version = 0 ∨
          ∀ d ∈ here.domains, d ∈ remote.domains → d ∈ TypeScript.retiredDomains) ∧
        (1 < min here.version remote.version ∨ ¬(here.Known ∧ remote.Known))) := by
  intro added
  have hadded : added.Grammatical := List.forall_mem_cons.2 ⟨hdomain, hhere⟩
  have hinter : added.domains.toFinset ∩ remote.domains.toFinset =
      here.domains.toFinset ∩ remote.domains.toFinset := by
    ext d
    simp only [added, Finset.mem_inter, List.mem_toFinset, List.mem_cons]
    refine and_congr_left fun hd => or_iff_right ?_
    rintro rfl
    exact hnew hd
  have hnone := rust_outcome_eq_none hhere hremote
  have haddedNone := rust_outcome_eq_none hadded hremote
  rw [outcome_eq_iff hhere hremote, typeScript_outcome_eq_none, hnone]
  constructor
  · rintro ⟨⟨hversion, hknown, hknown', hshared⟩ | hrefused, -, -, -, hsame⟩
    · -- Rust succeeds, so it knows the new domain as well.
      rw [hsame, hnone] at haddedNone
      have hboth := not_or.1 (mt haddedNone.2 (by simp [hversion, hknown, hknown']))
      exact .inl ⟨hversion, (not_not.1 hboth.2).1, hknown', hshared⟩
    · exact .inr hrefused
  · intro h
    refine ⟨h.imp_left fun h => ⟨h.1, (List.forall_mem_cons.1 h.2.1).2, h.2.2⟩,
      outcome_comm hhere hremote, fun _ => outcome_reorder hhere hremote,
      typeScript_outcome_congr rfl hinter, ?_⟩
    rcases h with ⟨-, hknown, hknown', -⟩ | ⟨-, hrust⟩
    · exact rust_outcome_congr hhere hremote hadded hremote
        (iff_of_true ⟨hknown, hknown'⟩ ⟨(List.forall_mem_cons.1 hknown).2, hknown'⟩) rfl hinter
    · rw [hnone.2 hrust, haddedNone.2
        (hrust.imp_right fun h hboth => h ⟨(List.forall_mem_cons.1 hboth.1).2, hboth.2⟩)]

/-- Frames with a shared domain, and frames that are refused in both languages. -/
theorem negotiation_agrees_sample :
    let data : Handshake := ⟨1, ["core/data"]⟩
    TypeScript.outcome data ⟨3, ["core/data"]⟩ = Rust.outcome data ⟨3, ["core/data"]⟩ ∧
      TypeScript.outcome ⟨1, ["core/room"]⟩ data = Rust.outcome ⟨1, ["core/room"]⟩ data := by
  have hcore : ∀ d ∈ coreDomainNames, d.toList ∈ domainPattern := fun d hd =>
    .inl (.inl ⟨d, hd, rfl⟩)
  have hgrammar : ∀ version, ∀ d ∈ coreDomainNames, Grammatical ⟨version, [d]⟩ := by
    rintro version d hd e he
    rw [List.mem_singleton.1 he]
    exact hcore d hd
  refine ⟨((negotiation_agrees (hgrammar 1 "core/data" (by decide))
    (hgrammar 3 "core/data" (by decide)) (hcore "core/exec" (by decide)) (by decide)).2
      (.inl ⟨rfl, ?_, ?_, "core/data", by decide, by decide⟩)).1,
    ((negotiation_agrees (hgrammar 1 "core/room" (by decide)) (hgrammar 1 "core/data" (by decide))
      (hcore "core/exec" (by decide)) (by decide)).2
        (.inr ⟨.inr (by decide), .inr fun h => ?_⟩)).1⟩
  · exact (by decide : ∀ d ∈ ["core/exec", "core/data"], d ∉ Rust.unknownDomains)
  · exact (by decide : ∀ d ∈ ["core/data"], d ∉ Rust.unknownDomains)
  · exact h.1 "core/room" (by simp) (by decide)

/-- A domain that only TypeScript knows, one that is retired and advertised by one side, a version
    that both sides support, and no common domain: each time one language succeeds alone. -/
theorem negotiation_differs :
    let room : Handshake := ⟨1, ["core/room"]⟩
    let data : Handshake := ⟨1, ["core/data"]⟩
    let retired : Handshake := ⟨1, ["core/data", "core/federation"]⟩
    (TypeScript.negotiate room room = ⟨true, 1, ["core/room"]⟩ ∧
      Rust.negotiate room room =
        .error (.invalidDomain .here (.malformed "core/room"))) ∧
    (TypeScript.negotiate retired data = ⟨true, 1, ["core/data"]⟩ ∧
      Rust.negotiate retired data =
        .error (.invalidDomain .here (.retired "core/federation"))) ∧
    (TypeScript.negotiate ⟨2, ["core/data"]⟩ ⟨2, ["core/data"]⟩ = ⟨true, 2, ["core/data"]⟩ ∧
      Rust.negotiate ⟨2, ["core/data"]⟩ ⟨2, ["core/data"]⟩ =
        .error (.unsupportedVersion 2 1)) ∧
    (TypeScript.negotiate data ⟨1, ["core/exec"]⟩ = ⟨false, 1, []⟩ ∧
      Rust.negotiate data ⟨1, ["core/exec"]⟩ = .ok ⟨1, []⟩) := by
  intro room data retired
  have hdata (version : ℕ) : Rust.Handshake.validate ⟨version, ["core/data"]⟩ = .ok () := rfl
  refine ⟨⟨by decide, ?_⟩, ⟨by decide, ?_⟩, ⟨by decide, ?_⟩, by decide, ?_⟩
  · have h : Rust.Handshake.validate room = .error (.malformed "core/room") := by decide +kernel
    rw [Rust.negotiate, h]
    rfl
  · have h : Rust.Handshake.validate retired = .error (.retired "core/federation") := by decide
    rw [Rust.negotiate, h]
    rfl
  · rw [Rust.negotiate, hdata]
    rfl
  · have h : Rust.Handshake.validate ⟨1, ["core/exec"]⟩ = .ok () := by decide
    have hinter : data.domains.toFinset ∩ ["core/exec"].toFinset = ∅ := by decide
    rw [Rust.negotiate, hdata, h, hinter, Finset.sort_empty]
    rfl

end WireMesh
