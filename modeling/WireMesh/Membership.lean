import WireMesh.Rust.Room
import WireMesh.TypeScript.Room

/-!
# Membership of rooms

Both verifiers of room tokens, and those of notices, accept only tokens that
are placed in the room: over it, borne by the device in question, and rooted as
the path wants it. They do not look at the capability, so that a token is one
of membership exactly when its capability says so (`room_member_iff`): a token
that lets a device ask for membership passes for one (`room_outsider_accepted`).
-/

namespace WireMesh

open Async

namespace Sample

/-- A room of device 1. -/
def room : String := deviceIdToHex (Identity.sample 1).deviceId ++ "/den"

/-- A token over the room, from its owner to device 2. -/
def roomGrant (tokenId : Bytes) (capability : String) : TokenClaims :=
  { TokenClaims.sample tokenId 1 2 capability with
    scope := { kind := "room", path := some room } }

/-- Device 2 may ask to become a member. -/
def petition : TokenClaims :=
  { roomGrant [1] "manage:request" with requestsCapability := some roomMemberCapability }

/-- Device 2 is a member. -/
def membership : TokenClaims := roomGrant [2] roomMemberCapability

def roomLinks : List Link := [.sample 1 petition, .sample 1 membership]

def roomTokenOptions : TypeScript.VerifyRoomTokenOptions where
  toVerifyOptions := .sample roomLinks []
  expectedBearer := (Identity.sample 2).deviceId
  roomPath := room

def roomVerifier : Rust.Verifier := .sample roomLinks []

/-- A notice of device 2, with the token it posts by virtue of. -/
def noticeClaims (token : CapabilityToken) : RoomNoticeClaims where
  room := room
  poster := (Identity.sample 2).deviceId
  posterKey := (Identity.sample 2).identityKey
  token := token
  noticeId := [7]
  postedAt := 900
  contentType := "text/plain"
  content := [104, 105]

/-- The notice, sealed; its payload stands for the encoding of its claims. -/
def notice : RoomNotice := (Identity.sample 2).seal [0]

/-- The options of a reader who finds the claims in the notice. -/
def roomNoticeOptions (claims : RoomNoticeClaims) : TypeScript.VerifyRoomNoticeOptions where
  toVerifyOptions := .sample roomLinks []
  noticeClaims payload := if payload = [0] then some claims else none

def noticeDecoder (claims : RoomNoticeClaims) : Rust.NoticeDecoder := fun payload =>
  if payload = [0] then .ok claims else .error "unknown"

theorem room_parse :
    ParsedRoomPath.parse room =
      some (.ownerNamed (deviceIdToHex (Identity.sample 1).deviceId) "den") := by
  decide +kernel

theorem roomLinks_claims_ne :
    (roomLinks.map Link.claims).Pairwise fun a b => a.encode ≠ b.encode := by
  decide +kernel

theorem roomLinks_tokens_ne :
    (roomLinks.map Link.token).Pairwise fun a b => a.encode ≠ b.encode := by
  decide +kernel

theorem eq_of_mem_roomLinks {claims : TokenClaims} (h : .sample 1 claims ∈ roomLinks) :
    claims = petition ∨ claims = membership :=
  (List.mem_pair.1 h).imp (congrArg Link.claims) (congrArg Link.claims)

theorem roomTokenOptions_reads {claims : TokenClaims} (h : .sample 1 claims ∈ roomLinks) :
    roomTokenOptions.codec.toDecoder.Reads (Link.sample 1 claims).token (.sample 1 claims) :=
  (TypeScript.Codec.among_reads roomLinks_claims_ne roomLinks_tokens_ne h).1

theorem roomVerifier_reads {claims : TokenClaims} (h : .sample 1 claims ∈ roomLinks) :
    roomVerifier.codec.toDecoder.Reads (Link.sample 1 claims).token (.sample 1 claims) :=
  (Rust.Codec.among_reads roomLinks_claims_ne roomLinks_tokens_ne h).1

/-- Both tokens are accepted for what they are. -/
theorem roomTokenOptions_returns {claims : TokenClaims} (h : .sample 1 claims ∈ roomLinks) :
    roomTokenOptions.ofRoom.Returns
      { token := (Link.sample 1 claims).token, expectedBearer := some (Identity.sample 2).deviceId }
      (.ok (.ofChain (.sample 1 claims) [])) := by
  have hreads := roomTokenOptions_reads h
  rcases eq_of_mem_roomLinks h with rfl | rfl
  all_goals
    refine TypeScript.returns_of_root TypeScript.Trilean.sample_kleene hreads rfl ?_ ?_
      fun bearer hbearer => Option.some.inj hbearer
    · exact TypeScript.admits_sample rfl rfl rfl (by decide) rfl (by decide)
    · exact TypeScript.holds_of_no_conditions rfl

theorem roomVerifier_returns {claims : TokenClaims} (h : .sample 1 claims ∈ roomLinks) :
    roomVerifier.Returns
      { token := (Link.sample 1 claims).token, expectedBearer := some (Identity.sample 2).deviceId }
      (.ok (.ofChain (.start (Link.sample 1 claims).token) (.sample 1 claims) [])) := by
  have hreads := roomVerifier_reads h
  rcases eq_of_mem_roomLinks h with rfl | rfl
  all_goals
    refine Rust.returns_of_root hreads rfl ?_ ?_ fun bearer hbearer => Option.some.inj hbearer
    · exact Rust.admits_sample rfl rfl rfl (by decide) (by decide +kernel) (by decide) rfl
        (by decide)
    · exact Rust.holds_of_no_conditions rfl

theorem roomLinks_scope {claims : TokenClaims} (h : .sample 1 claims ∈ roomLinks) :
    claims.scope.kind = "room" ∧ claims.scope.path = some room ∧
      claims.issuer = (Identity.sample 1).deviceId := by
  rcases eq_of_mem_roomLinks h with rfl | rfl <;> exact ⟨rfl, rfl, rfl⟩

/-- Both are accepted for the room, and so are notices that embed them. -/
theorem roomTokenOptions_accepts {claims : TokenClaims} (h : .sample 1 claims ∈ roomLinks) :
    roomTokenOptions.Accepts (Link.sample 1 claims).token
      { claims, rootIssuerKey := claims.issuerKey } := by
  obtain ⟨hkind, hpath, hissuer⟩ := roomLinks_scope h
  exact TypeScript.accepts_iff.2 ⟨_, roomTokenOptions_returns h, hkind, hpath,
    ⟨_, room_parse, congrArg deviceIdToHex hissuer⟩, rfl⟩

theorem roomVerifier_accepts {claims : TokenClaims} (h : .sample 1 claims ∈ roomLinks) :
    roomVerifier.AcceptsRoomToken (Link.sample 1 claims).token (Identity.sample 2).deviceId room
      { claims, rootIssuerKey := claims.issuerKey } := by
  obtain ⟨hkind, hpath, hissuer⟩ := roomLinks_scope h
  exact Rust.acceptsRoomToken_iff.2 ⟨_, roomVerifier_returns h, hkind, hpath,
    ⟨_, room_parse, congrArg deviceIdToHex hissuer⟩, rfl⟩

theorem posts_notice {token : CapabilityToken} :
    (Identity.sample 4).Posts notice [0] (noticeClaims token) :=
  ⟨Identity.sample_recognises.signed _, Identity.sample_recognises.issuer⟩

theorem showable_notice {token : CapabilityToken} : (noticeClaims token).Showable 1000 :=
  ⟨by simp [noticeClaims], show isEncryptedContentType "text/plain" = false by decide⟩

theorem roomNoticeOptions_accepts {claims : TokenClaims} (h : .sample 1 claims ∈ roomLinks) :
    (roomNoticeOptions (noticeClaims (Link.sample 1 claims).token)).Accepts notice
      (noticeClaims (Link.sample 1 claims).token) :=
  TypeScript.verifyRoomNotice_accepts.2 ⟨⟨[0], rfl, rfl, posts_notice⟩, nofun, showable_notice,
    _, roomTokenOptions_accepts h⟩

theorem roomVerifier_acceptsNotice {claims : TokenClaims} (h : .sample 1 claims ∈ roomLinks) :
    roomVerifier.AcceptsRoomNotice (noticeDecoder (noticeClaims (Link.sample 1 claims).token))
      notice none (noticeClaims (Link.sample 1 claims).token) :=
  Rust.verifyRoomNotice_accepts.2 ⟨⟨[0], rfl, rfl, posts_notice⟩, nofun, showable_notice,
    _, roomVerifier_accepts h⟩

end Sample

namespace Sample

/-- To device 4, the links make device 2 a member of the room. -/
def IsMember (leaf : Link) (above : List Link) : Prop :=
  Member .self (Identity.sample 4).deviceId room (Identity.sample 2).deviceId leaf.claims
    ((leaf :: above).getLast (List.cons_ne_nil _ _)).claims

end Sample

/-- A token that only lets its bearer ask for membership is accepted for the room, and so is
    a notice that embeds it. -/
theorem room_outsider_accepted :
    let token := (Link.sample 1 Sample.petition).token
    Sample.petition.capability ≠ roomMemberCapability ∧
    (Sample.roomTokenOptions.codec.toDecoder.Reads token (.sample 1 Sample.petition) ∧
      (∃ v, Sample.roomTokenOptions.Accepts token v) ∧
      (Sample.roomNoticeOptions (Sample.noticeClaims token)).Accepts Sample.notice
        (Sample.noticeClaims token)) ∧
    Sample.roomVerifier.codec.toDecoder.Reads token (.sample 1 Sample.petition) ∧
      (∃ v, Sample.roomVerifier.AcceptsRoomToken token (Identity.sample 2).deviceId Sample.room v) ∧
      Sample.roomVerifier.AcceptsRoomNotice (Sample.noticeDecoder (Sample.noticeClaims token))
        Sample.notice none (Sample.noticeClaims token) := by
  have hmem : .sample 1 Sample.petition ∈ Sample.roomLinks := List.mem_cons_self
  refine ⟨by decide, ⟨Sample.roomTokenOptions_reads hmem, ?_, ?_⟩,
    Sample.roomVerifier_reads hmem, ?_, ?_⟩
  · exact ⟨_, Sample.roomTokenOptions_accepts hmem⟩
  · exact Sample.roomNoticeOptions_accepts hmem
  · exact ⟨_, Sample.roomVerifier_accepts hmem⟩
  · exact Sample.roomVerifier_acceptsNotice hmem

/-- What a verifier accepts for a room is the token of a member of it iff its capability is
    membership: over the room, borne by the device in question and rooted as the path wants
    it, it always is. So, too, for the token that an accepted notice embeds. -/
theorem room_member_iff (options : TypeScript.VerifyRoomTokenOptions)
    (ht : options.trilean.Kleene) (noticeOptions : TypeScript.VerifyRoomNoticeOptions)
    (ht' : noticeOptions.trilean.Kleene) (verifier : Rust.Verifier) :
    (∀ token v, options.Accepts token v →
      ∃ leaf above, ChainOf options.codec.toDecoder token (leaf :: above) ∧
        v.claims = leaf.claims ∧
        (Member options.policy options.identity.deviceId options.roomPath options.expectedBearer
            leaf.claims ((leaf :: above).getLast (List.cons_ne_nil _ _)).claims ↔
          leaf.claims.capability = roomMemberCapability)) ∧
    (∀ notice claims, noticeOptions.Accepts notice claims →
      ∃ leaf above, ChainOf noticeOptions.codec.toDecoder claims.token (leaf :: above) ∧
        (Member (noticeOptions.dmRootPolicy.getD .self) noticeOptions.identity.deviceId claims.room
            claims.poster leaf.claims ((leaf :: above).getLast (List.cons_ne_nil _ _)).claims ↔
          leaf.claims.capability = roomMemberCapability)) ∧
    (∀ token bearer path v, verifier.AcceptsRoomToken token bearer path v →
      ∃ leaf above, ChainOf verifier.codec.toDecoder token (leaf :: above) ∧
        v.claims = leaf.claims ∧
        (Member .self verifier.identity.deviceId path bearer leaf.claims
            ((leaf :: above).getLast (List.cons_ne_nil _ _)).claims ↔
          leaf.claims.capability = roomMemberCapability)) ∧
    (∀ decode notice expectedRoom claims,
      verifier.AcceptsRoomNotice decode notice expectedRoom claims →
      ∃ leaf above, ChainOf verifier.codec.toDecoder claims.token (leaf :: above) ∧
        (Member .self verifier.identity.deviceId claims.room claims.poster leaf.claims
            ((leaf :: above).getLast (List.cons_ne_nil _ _)).claims ↔
          leaf.claims.capability = roomMemberCapability)) := by
  refine ⟨?_, ?_, ?_, ?_⟩
  · intro token v h
    obtain ⟨leaf, above, hchain, -, hplaced, hv⟩ := TypeScript.verifyRoomToken_accepts ht h
    exact ⟨leaf, above, hchain, hv, hplaced.member_iff⟩
  · intro notice claims h
    obtain ⟨-, -, -, v, hv⟩ := TypeScript.verifyRoomNotice_accepts.1 h
    obtain ⟨leaf, above, hchain, -, hplaced, -⟩ := TypeScript.verifyRoomToken_accepts ht' hv
    exact ⟨leaf, above, hchain, hplaced.member_iff⟩
  · intro token bearer path v h
    obtain ⟨leaf, above, hchain, -, hplaced, hv⟩ := Rust.verifyRoomToken_accepts h
    exact ⟨leaf, above, hchain, hv, hplaced.member_iff⟩
  · intro decode notice expectedRoom claims h
    obtain ⟨-, -, -, v, hv⟩ := Rust.verifyRoomNotice_accepts.1 h
    obtain ⟨leaf, above, hchain, -, hplaced, -⟩ := Rust.verifyRoomToken_accepts hv
    exact ⟨leaf, above, hchain, hplaced.member_iff⟩

theorem room_member_iff_sample :
    (∃ leaf above, ChainOf Sample.roomTokenOptions.codec.toDecoder
      (Link.sample 1 Sample.membership).token (leaf :: above) ∧ Sample.IsMember leaf above) ∧
    (∃ leaf above, ChainOf Sample.roomTokenOptions.codec.toDecoder
      (Link.sample 1 Sample.petition).token (leaf :: above) ∧ ¬Sample.IsMember leaf above) ∧
    (∃ leaf above, ChainOf Sample.roomVerifier.codec.toDecoder
      (Link.sample 1 Sample.membership).token (leaf :: above) ∧ Sample.IsMember leaf above) ∧
    ∃ leaf above, ChainOf Sample.roomVerifier.codec.toDecoder
      (Link.sample 1 Sample.petition).token (leaf :: above) ∧ ¬Sample.IsMember leaf above := by
  have hpetition : .sample 1 Sample.petition ∈ Sample.roomLinks := List.mem_cons_self
  have hmembership : .sample 1 Sample.membership ∈ Sample.roomLinks :=
    List.mem_cons_of_mem _ (List.mem_singleton_self _)
  have hcapability : Sample.petition.capability ≠ roomMemberCapability := by decide
  obtain ⟨htoken, hnotice, htoken', hnotice'⟩ := room_member_iff Sample.roomTokenOptions
    TypeScript.Trilean.sample_kleene
    (Sample.roomNoticeOptions (Sample.noticeClaims (Link.sample 1 Sample.petition).token))
    TypeScript.Trilean.sample_kleene Sample.roomVerifier
  refine ⟨?_, ?_, ?_, ?_⟩
  · obtain ⟨leaf, above, hchain, hclaims, hiff⟩ :=
      htoken _ _ (Sample.roomTokenOptions_accepts hmembership)
    exact ⟨leaf, above, hchain, hiff.2 (hclaims ▸ rfl)⟩
  · obtain ⟨leaf, above, hchain, hiff⟩ := hnotice _ _ (Sample.roomNoticeOptions_accepts hpetition)
    obtain rfl := hchain.reads.unique (Sample.roomTokenOptions_reads hpetition)
    exact ⟨_, above, hchain, fun h => hcapability (hiff.1 h)⟩
  · obtain ⟨leaf, above, hchain, hclaims, hiff⟩ :=
      htoken' _ _ _ _ (Sample.roomVerifier_accepts hmembership)
    exact ⟨leaf, above, hchain, hiff.2 (hclaims ▸ rfl)⟩
  · obtain ⟨leaf, above, hchain, hiff⟩ :=
      hnotice' _ _ _ _ (Sample.roomVerifier_acceptsNotice hpetition)
    obtain rfl := hchain.reads.unique (Sample.roomVerifier_reads hpetition)
    exact ⟨_, above, hchain, fun h => hcapability (hiff.1 h)⟩

end WireMesh
