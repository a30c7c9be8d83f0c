import Sley.Lib.BinarySearch
import Sley.Protocol.Hello

/-!
# Negotiation

The selection that two hellos determine, and its identity (`sley-protocol/src/lib.rs`, `negotiate`,
`negotiate_versioned` and `negotiate_identity_versioned`). Which methods are selected is decided in
three places: the validation of each hello, the intersection, and a filter that depends on the
selected version; **together they leave no method that the version does not have**
(`Selects.known`).

The identity is a digest over the bare concatenation of both hellos and the selection. Each is a
record of seven fields, so the concatenation is taken apart in one way only
(`handshakeTranscript_inj`), and without collisions the identity binds all three.
-/

namespace Sley.Protocol

open Scb1 Ssmc Txn
open Except (bind_eq_ok ofOption pure_eq_ok rejectIf)
open LimitProfile (encode_eq)

/-- The derived selection. -/
structure SelectedProfile where
  protocolVersion : UInt32
  schemaEpoch : SchemaEpochId
  limits : LimitProfile
  methods : List UInt32
  features : UInt32
  adapters : List Digest
  effects : List Digest
  deriving DecidableEq

/-- The exact bytes the handshake identity digests: the client hello body, the server hello body,
the selection preimage. -/
def handshakeTranscript (clientHelloBody serverHelloBody selectionPreimage : Bytes) : Bytes :=
  clientHelloBody ++ serverHelloBody ++ selectionPreimage

def intersect (left right : List Digest) : List Digest :=
  left.filter fun item ↦ binarySearch right item

/-- Derives the selected profile from two hellos. -/
def negotiate (client server : Hello) : Result SelectedProfile := do
  client.validate
  server.validate
  let protocolVersion ← ofOption .noCommonProfile
    (client.protocolVersions.reverse.find? fun version ↦
      binarySearch server.protocolVersions version)
  let schemaEpoch ← ofOption .noCommonProfile
    (server.schemaEpochs.find? fun epoch ↦ client.schemaEpochs.contains epoch)
  let methods := client.methods.filter fun method ↦ binarySearch server.methods method
  rejectIf (methods.isEmpty = true) .noCommonProfile
  rejectIf (¬ methods.contains Method.sessionOpen.tag) .noCommonProfile
  return {
    protocolVersion
    schemaEpoch
    limits := client.limits.minimum server.limits
    methods
    features := client.features &&& server.features
    adapters := intersect client.adapters server.adapters
    effects := intersect client.effects server.effects }

/-- The filter of `negotiate_versioned`: known tags that the selection does not have. -/
def retains (version features tag : UInt32) : Bool :=
  if version = protocolVersion then
    tag != entityVersionTag && tag != entitySignatureTag && tag != testsReportReadTag &&
      tag != testsReplayTag && tag != testsAttemptStatusTag
  else if version = protocolVersionV2 then
    tag != testsReportReadTag && tag != testsReplayTag && tag != testsAttemptStatusTag
  else if features &&& featureNativeTestsV1 = 0 then
    tag != testsSelectedTag && tag != testsAffectedTag && tag != testsReportReadTag &&
      tag != testsReplayTag && tag != testsAttemptStatusTag
  else
    true

/-- Derives the selected profile from two hellos with explicit version awareness. -/
def negotiateVersioned (client server : Hello) : Result SelectedProfile := do
  let profile ← negotiate client server
  rejectIf
    (profile.protocolVersion ≠ protocolVersion ∧ profile.protocolVersion ≠ protocolVersionV2 ∧
      profile.protocolVersion ≠ protocolVersionV3)
    .versionUnsupported
  return { profile with
    methods := profile.methods.filter (retains profile.protocolVersion profile.features) }

namespace SelectedProfile

/-- Canonical preimage of the selection. -/
def preimage (self : SelectedProfile) : Result Bytes := do
  let limits ← self.limits.encode
  let methods ← uvarList self.methods
  let adapters ← fixedList self.adapters
  let effects ← fixedList self.effects
  scb (encodeRecord
    [(1, encodeUvar self.protocolVersion.toUInt64),
      (2, self.schemaEpoch.bytes),
      (3, limits),
      (4, methods),
      (5, encodeUvar self.features.toUInt64),
      (6, adapters),
      (7, effects)])

/-- The transcript-bound identity both peers must compute identically. -/
def handshakeIdBound [Blake3] (self : SelectedProfile) (clientHelloBody serverHelloBody : Bytes) :
    Result ProtocolHandshakeId := do
  let preimage ← self.preimage
  return ProtocolHandshakeId.derive (handshakeTranscript clientHelloBody serverHelloBody preimage)

end SelectedProfile

/-- Derives the version-aware selection and binds the observed hello transcript. -/
def negotiateIdentityVersioned [Blake3] (client server : Hello) :
    Result (SelectedProfile × ProtocolHandshakeId) := do
  let profile ← negotiateVersioned client server
  let clientBody ← client.encode
  let serverBody ← server.encode
  let identity ← profile.handshakeIdBound clientBody serverBody
  return (profile, identity)

/-! ### What is selected -/

/-- Every limit of one profile is at most that of another. -/
structure LimitProfile.Within (self other : LimitProfile) : Prop where
  maxFrameBytes : self.maxFrameBytes ≤ other.maxFrameBytes
  maxEntities : self.maxEntities ≤ other.maxEntities
  maxEdges : self.maxEdges ≤ other.maxEdges
  maxDepth : self.maxDepth ≤ other.maxDepth
  maxResponseBytes : self.maxResponseBytes ≤ other.maxResponseBytes
  maxWork : self.maxWork ≤ other.maxWork
  maxInflight : self.maxInflight ≤ other.maxInflight
  maxSessions : self.maxSessions ≤ other.maxSessions

/-- A safe selection from two hellos. -/
structure Selects (client server : Hello) (profile : SelectedProfile) : Prop where
  version_client : profile.protocolVersion ∈ client.protocolVersions
  version_server : profile.protocolVersion ∈ server.protocolVersions
  version_greatest : ∀ version ∈ client.protocolVersions, version ∈ server.protocolVersions →
    version ≤ profile.protocolVersion
  epoch_client : profile.schemaEpoch ∈ client.schemaEpochs
  epoch_server : profile.schemaEpoch ∈ server.schemaEpochs
  methods : ∀ tag ∈ profile.methods, tag ∈ client.methods ∧ tag ∈ server.methods
  adapters : ∀ adapter ∈ profile.adapters, adapter ∈ client.adapters ∧ adapter ∈ server.adapters
  effects : ∀ effect ∈ profile.effects, effect ∈ client.effects ∧ effect ∈ server.effects
  features : ∀ bit : Nat, profile.features.toNat.testBit bit = true →
    client.features.toNat.testBit bit = true ∧ server.features.toNat.testBit bit = true
  limits_client : profile.limits.Within client.limits
  limits_server : profile.limits.Within server.limits
  sessionOpen : Method.sessionOpen.tag ∈ profile.methods
  /-- A known method was introduced at or below the version, and is reserved only if it is a native
  test method under version 3 with the native tests selected. -/
  known : ∀ method : Method, method.tag ∈ profile.methods →
    method.introducedIn ≤ profile.protocolVersion ∧
      (method.isReserved = true → method.isNativeTest = true ∧
        profile.protocolVersion = protocolVersionV3 ∧
        profile.features &&& featureNativeTestsV1 ≠ 0)

theorem LimitProfile.minimum_within_left {left right : LimitProfile} :
    (left.minimum right).Within left := by
  constructor <;> exact Std.min_le_left

theorem LimitProfile.minimum_within_right {left right : LimitProfile} :
    (left.minimum right).Within right := by
  constructor <;> exact Std.min_le_right

/-- Searching an ascending list from its end finds the greatest element that passes. -/
theorem le_of_find?_reverse {versions : List UInt32} {p : UInt32 → Bool} {found version : UInt32}
    (hasc : versions.Pairwise (compare · · = .lt))
    (hfind : versions.reverse.find? p = some found) (hmem : version ∈ versions)
    (hp : p version = true) : version ≤ found := by
  obtain ⟨-, skipped, rest, hsplit, hskipped⟩ := List.find?_eq_some_iff_append.1 hfind
  have hdesc := List.pairwise_reverse.2 hasc
  rw [← List.mem_reverse, hsplit, List.mem_append, List.mem_cons] at hmem
  rw [hsplit, List.pairwise_append, List.pairwise_cons] at hdesc
  rcases hmem with hbefore | rfl | hafter
  · have := hskipped version hbefore
    rw [hp] at this
    cases this
  · exact UInt32.le_refl _
  · exact UInt32.le_of_lt (Std.compare_eq_lt.1 (hdesc.2.1.1 version hafter))

/-- The native tests are selected where both sides offer them. -/
theorem and_featureNativeTestsV1 {left right : UInt32} (hleft : left &&& featureNativeTestsV1 ≠ 0)
    (hright : right &&& featureNativeTestsV1 ≠ 0) :
    left &&& right &&& featureNativeTestsV1 ≠ 0 := by
  have hbit : ∀ features : UInt32, features &&& featureNativeTestsV1 ≠ 0 ↔
      features.toNat.testBit 5 = true := by
    intro features
    rw [ne_eq, ← UInt32.toNat_inj, UInt32.toNat_and]
    show ¬ features.toNat &&& 2 ^ 5 = 0 ↔ _
    rw [Nat.and_two_pow]
    cases features.toNat.testBit 5 <;> decide
  rw [hbit, UInt32.toNat_and, Nat.testBit_and, (hbit _).1 hleft, (hbit _).1 hright]
  rfl

/-- What the version of a method says about it. -/
theorem Method.introducedIn_cases (method : Method) : method.introducedIn = protocolVersion ∨
      (method.introducedIn = protocolVersionV2 ∧ method.isReserved = false ∧
        (method.tag = entityVersionTag ∨ method.tag = entitySignatureTag)) ∨
      (method.introducedIn = protocolVersionV3 ∧ method.isNativeTest = true ∧
        (method.tag = testsReportReadTag ∨ method.tag = testsReplayTag ∨
          method.tag = testsAttemptStatusTag)) := by
  cases method <;> decide

/-- A reserved method of version 1 is only offered as a native test, under version 3. -/
theorem Hello.Valid.reserved {hello : Hello} (h : hello.Valid) {method : Method}
    (hmem : method.tag ∈ hello.methods) (hversion : method.introducedIn = protocolVersion)
    (hreserved : method.isReserved = true) :
    method.isNativeTest = true ∧ protocolVersionV3 ∈ hello.protocolVersions ∧
      hello.features &&& featureNativeTestsV1 ≠ 0 := by
  have hoffered := h.methods_offered _ hmem
  rw [Hello.refuses, Method.fromTag_eq_ok.2 ⟨rfl, hversion⟩] at hoffered
  simpa [hreserved, and_assoc] using hoffered

variable {profile : SelectedProfile} {client server : Hello}

theorem negotiate_eq_ok (h : negotiate client server = .ok profile) : client.Valid ∧ server.Valid ∧
      (client.protocolVersions.reverse.find? fun version ↦
        binarySearch server.protocolVersions version) = some profile.protocolVersion ∧
      (server.schemaEpochs.find? fun epoch ↦ client.schemaEpochs.contains epoch) =
        some profile.schemaEpoch ∧
      profile.limits = client.limits.minimum server.limits ∧
      profile.methods = client.methods.filter (fun method ↦ binarySearch server.methods method) ∧
      profile.features = client.features &&& server.features ∧
      profile.adapters = intersect client.adapters server.adapters ∧
      profile.effects = intersect client.effects server.effects ∧
      Method.sessionOpen.tag ∈ profile.methods := by
  simp only [negotiate, bind_eq_ok, Hello.validate_eq_ok, exists_const, Except.ofOption_eq_ok,
    Except.rejectIf_eq_ok, pure_eq_ok, not_not, List.contains_iff_mem] at h
  obtain ⟨hclient, hserver, version, hversion, epoch, hepoch, -, hopen, rfl⟩ := h
  exact ⟨hclient, hserver, hversion, hepoch, rfl, rfl, rfl, rfl, rfl, hopen⟩

theorem mem_intersect {left right : List Digest} (h : right.Pairwise (compare · · = .lt))
    {item : Digest} : item ∈ intersect left right ↔ item ∈ left ∧ item ∈ right := by
  rw [intersect, List.mem_filter, binarySearch_eq_true_iff h]

theorem negotiateVersioned_eq_ok :
    negotiateVersioned client server = .ok profile ↔ ∃ base, negotiate client server = .ok base ∧
      (base.protocolVersion = protocolVersion ∨ base.protocolVersion = protocolVersionV2 ∨
        base.protocolVersion = protocolVersionV3) ∧
      profile = { base with
        methods := base.methods.filter (retains base.protocolVersion base.features) } := by
  simp only [negotiateVersioned, bind_eq_ok, Except.rejectIf_eq_ok, exists_const,
    pure_eq_ok, ne_eq, not_and_or, not_not]

/-- What the filter leaves of the methods that a later version introduced. -/
theorem introducedIn_le_of_retains {method : Method} {version features : UInt32}
    (hdefined : version = protocolVersion ∨ version = protocolVersionV2 ∨
      version = protocolVersionV3)
    (hretains : retains version features method.tag = true) :
    method.introducedIn ≤ version ∧ (method.introducedIn ≠ protocolVersion →
      method.isReserved = true → method.isNativeTest = true ∧ version = protocolVersionV3 ∧
        features &&& featureNativeTestsV1 ≠ 0) := by
  rcases method.introducedIn_cases with hone | ⟨htwo, hnot, htags⟩ | ⟨hthree, hnative, htags⟩
  · refine ⟨?_, fun hne ↦ absurd hone hne⟩
    rw [hone]
    rcases hdefined with rfl | rfl | rfl <;> decide
  · refine ⟨?_, fun _ hreserved ↦ by rw [hnot] at hreserved; cases hreserved⟩
    rw [htwo]
    rcases hdefined with rfl | rfl | rfl
    · -- version 1 drops both tags
      rw [retains, if_pos rfl] at hretains
      rcases htags with htag | htag <;> rw [htag] at hretains <;> exact absurd hretains (by decide)
    · decide
    · decide
  · rw [hthree]
    have hdrops : version = protocolVersionV3 ∧ features &&& featureNativeTestsV1 ≠ 0 := by
      rcases hdefined with rfl | rfl | rfl
      · rw [retains, if_pos rfl] at hretains
        rcases htags with htag | htag | htag <;> rw [htag] at hretains <;>
          exact absurd hretains (by decide)
      · rw [retains, if_neg (by decide), if_pos rfl] at hretains
        rcases htags with htag | htag | htag <;> rw [htag] at hretains <;>
          exact absurd hretains (by decide)
      · refine ⟨rfl, fun hbit ↦ ?_⟩
        rw [retains, if_neg (by decide), if_neg (by decide), if_pos hbit] at hretains
        rcases htags with htag | htag | htag <;> rw [htag] at hretains <;>
          exact absurd hretains (by decide)
    obtain ⟨rfl, hbit⟩ := hdrops
    exact ⟨by decide, fun _ _ ↦ ⟨hnative, rfl, hbit⟩⟩

/-- **The selection is safe.** -/
theorem negotiateVersioned_selects
    (h : negotiateVersioned client server = .ok profile) : Selects client server profile := by
  obtain ⟨base, hbase, hdefined, rfl⟩ := negotiateVersioned_eq_ok.1 h
  obtain ⟨hclient, hserver, hversion, hepoch, hlimits, hmethods, hfeatures, hadapters, heffects,
    hopen⟩ := negotiate_eq_ok hbase
  have hmem : ∀ tag ∈ base.methods, tag ∈ client.methods ∧ tag ∈ server.methods := by
    intro tag htag
    rwa [hmethods, List.mem_filter, binarySearch_eq_true_iff hserver.methods_asc] at htag
  constructor
  case version_client => exact List.mem_reverse.1 (List.mem_of_find?_eq_some hversion)
  case version_server =>
    exact (binarySearch_eq_true_iff hserver.versions_asc).1 (List.find?_some hversion)
  case version_greatest =>
    intro version hofClient hofServer
    exact le_of_find?_reverse hclient.versions_asc hversion hofClient
      ((binarySearch_eq_true_iff hserver.versions_asc).2 hofServer)
  case epoch_client => exact List.contains_iff_mem.1 (List.find?_some hepoch)
  case epoch_server => exact List.mem_of_find?_eq_some hepoch
  case methods => exact fun tag htag ↦ hmem tag (List.mem_of_mem_filter htag)
  case adapters =>
    intro adapter hadapter
    exact (mem_intersect hserver.adapters_asc).1 (hadapters ▸ hadapter)
  case effects =>
    intro effect heffect
    exact (mem_intersect hserver.effects_asc).1 (heffects ▸ heffect)
  case features =>
    intro bit hbit
    rw [show base.features = _ from hfeatures, UInt32.toNat_and, Nat.testBit_and,
      Bool.and_eq_true] at hbit
    exact hbit
  case limits_client => exact hlimits ▸ LimitProfile.minimum_within_left
  case limits_server => exact hlimits ▸ LimitProfile.minimum_within_right
  case sessionOpen =>
    refine List.mem_filter.2 ⟨hopen, ?_⟩
    rw [retains]
    split
    · decide
    split
    · decide
    split <;> decide
  case known =>
    intro method htag
    obtain ⟨hselected, hretains⟩ := List.mem_filter.1 htag
    obtain ⟨hofClient, hofServer⟩ := hmem _ hselected
    obtain ⟨hle, hlater⟩ := introducedIn_le_of_retains hdefined hretains
    refine ⟨hle, fun hreserved ↦ ?_⟩
    by_cases hone : method.introducedIn = protocolVersion
    · -- both sides offer version 3, so the greatest common version is at least that
      obtain ⟨hnative, hclientV3, hclientBit⟩ := hclient.reserved hofClient hone hreserved
      obtain ⟨-, hserverV3, hserverBit⟩ := hserver.reserved hofServer hone hreserved
      have hge : protocolVersionV3 ≤ base.protocolVersion :=
        le_of_find?_reverse hclient.versions_asc hversion hclientV3
          ((binarySearch_eq_true_iff hserver.versions_asc).2 hserverV3)
      have heq : base.protocolVersion = protocolVersionV3 := by
        rcases hdefined with h | h | h
        · exact absurd (h ▸ hge) (by decide)
        · exact absurd (h ▸ hge) (by decide)
        · exact h
      exact ⟨hnative, heq, hfeatures ▸ and_featureNativeTestsV1 hclientBit hserverBit⟩
    · exact hlater hone hreserved

/-! ### What the identity binds -/

namespace SelectedProfile

variable {self other : SelectedProfile} {bs : Bytes}

/-- The lists of a selection are not longer than those of a hello. -/
structure Bounded (profile : SelectedProfile) : Prop where
  methods_le : profile.methods.length ≤ maxHelloList
  adapters_le : profile.adapters.length ≤ maxHelloList
  effects_le : profile.effects.length ≤ maxHelloList

/-- The payloads of the preimage. -/
def fields (self : SelectedProfile) : List Bytes :=
  [encodeUvar self.protocolVersion.toUInt64, self.schemaEpoch.bytes,
    recordBytes self.limits.fields,
    Reader.listBytes (self.methods.map fun value ↦ encodeUvar value.toUInt64),
    encodeUvar self.features.toUInt64, Reader.listBytes (self.adapters.map Id.bytes),
    Reader.listBytes (self.effects.map Id.bytes)]

theorem preimage_eq (h : self.Bounded) : self.preimage = .ok (recordBytes self.fields) := by
  have hle : ∀ field ∈ self.fields, field.length ≤ maxStandaloneBytes := by
    simp only [fields, List.forall_mem_cons]
    refine ⟨(length_encodeUvar _).trans (by decide),
      self.schemaEpoch.length_eq.trans_le (by decide), (LimitProfile.length_encode_le encode_eq).trans (by decide),
      (Hello.length_list_le (by rw [List.length_map]; exact h.methods_le) length_uvars_le).trans
        (by decide),
      (length_encodeUvar _).trans (by decide),
      (Hello.length_list_le (by rw [List.length_map]; exact h.adapters_le) length_ids_le).trans
        (by decide),
      (Hello.length_list_le (by rw [List.length_map]; exact h.effects_le) length_ids_le).trans
        (by decide), ?_⟩
    exact fun _ h ↦ (List.not_mem_nil h).elim
  have hrecord : encodeRecord (numbered 1 self.fields) = .ok (recordBytes self.fields) :=
    encodeRecord_numbered (show 7 ≤ maxRecordFields by decide) hle
  rw [preimage, encode_eq, uvarList_eq h.methods_le, fixedList_eq h.adapters_le,
    fixedList_eq h.effects_le]
  show scb (encodeRecord (numbered 1 self.fields)) = _
  exact scb_eq_ok.2 hrecord

/-- Every field is read back from its payload. -/
theorem eq_of_fields_eq (h : self.Bounded) (h' : other.Bounded)
    (hfields : self.fields = other.fields) : self = other := by
  simp only [fields, List.cons.injEq, and_true] at hfields
  obtain ⟨hversion, hepoch, hlimits, hmethods, hfeatures, hadapters, heffects⟩ := hfields
  have hversion : self.protocolVersion = other.protocolVersion :=
    Except.ok.inj ((singleU32_eq_ok.2 rfl).symm.trans (singleU32_eq_ok.2 hversion))
  have hlimits : self.limits = other.limits :=
    Except.ok.inj ((LimitProfile.decode_eq_ok.2 encode_eq).symm.trans
      (LimitProfile.decode_eq_ok.2 (encode_eq.trans (congrArg _ hlimits.symm))))
  have hmethods : self.methods = other.methods :=
    Except.ok.inj ((u32List_eq_ok.2 ⟨h.methods_le, rfl⟩).symm.trans
      (u32List_eq_ok.2 ⟨h'.methods_le, hmethods⟩))
  have hfeatures : self.features = other.features :=
    Except.ok.inj ((singleU32_eq_ok.2 rfl).symm.trans (singleU32_eq_ok.2 hfeatures))
  have hadapters : self.adapters = other.adapters :=
    Except.ok.inj ((fixed32List_eq_ok.2 ⟨h.adapters_le, rfl⟩).symm.trans
      (fixed32List_eq_ok.2 ⟨h'.adapters_le, hadapters⟩))
  have heffects : self.effects = other.effects :=
    Except.ok.inj ((fixed32List_eq_ok.2 ⟨h.effects_le, rfl⟩).symm.trans
      (fixed32List_eq_ok.2 ⟨h'.effects_le, heffects⟩))
  cases self
  cases other
  simp only [mk.injEq]
  exact ⟨hversion, Id.ext hepoch, hlimits, hmethods, hfeatures, hadapters, heffects⟩

end SelectedProfile

variable {profile : SelectedProfile} {client server : Hello}

theorem negotiateVersioned_bounded
    (h : negotiateVersioned client server = .ok profile) : profile.Bounded := by
  obtain ⟨base, hbase, -, rfl⟩ := negotiateVersioned_eq_ok.1 h
  obtain ⟨hclient, -, -, -, -, hmethods, -, hadapters, heffects, -⟩ := negotiate_eq_ok hbase
  constructor
  · refine (List.length_filter_le _ _).trans ?_
    rw [hmethods]
    exact (List.length_filter_le _ _).trans hclient.methods_le
  · show base.adapters.length ≤ _
    rw [hadapters]
    exact (List.length_filter_le _ _).trans hclient.adapters_le
  · show base.effects.length ≤ _
    rw [heffects]
    exact (List.length_filter_le _ _).trans hclient.effects_le

/-- The hellos of a negotiation that succeeds are valid. -/
theorem negotiateVersioned_valid
    (h : negotiateVersioned client server = .ok profile) : client.Valid ∧ server.Valid := by
  obtain ⟨base, hbase, -, -⟩ := negotiateVersioned_eq_ok.1 h
  obtain ⟨hclient, hserver, -⟩ := negotiate_eq_ok hbase
  exact ⟨hclient, hserver⟩

/-- The transcript of a negotiation. -/
def transcript (client server : Hello) (profile : SelectedProfile) : Bytes :=
  handshakeTranscript (recordBytes client.fields) (recordBytes server.fields)
    (recordBytes profile.fields)

theorem negotiateIdentityVersioned_eq_ok [Blake3] {identity : ProtocolHandshakeId} :
    negotiateIdentityVersioned client server = .ok (profile, identity) ↔
      negotiateVersioned client server = .ok profile ∧
        identity = ProtocolHandshakeId.derive (transcript client server profile) := by
  have hrest : ∀ selected : SelectedProfile, negotiateVersioned client server = .ok selected →
      client.encode = .ok (recordBytes client.fields) ∧
        server.encode = .ok (recordBytes server.fields) ∧
        selected.preimage = .ok (recordBytes selected.fields) := by
    intro selected h
    obtain ⟨hclient, hserver⟩ := negotiateVersioned_valid h
    exact ⟨Hello.encode_eq_ok.2 ⟨hclient, rfl⟩, Hello.encode_eq_ok.2 ⟨hserver, rfl⟩,
      SelectedProfile.preimage_eq (negotiateVersioned_bounded h)⟩
  simp only [negotiateIdentityVersioned, SelectedProfile.handshakeIdBound, bind_eq_ok,
    pure_eq_ok, Prod.mk.injEq]
  constructor
  · rintro ⟨selected, h, clientBody, hclient, serverBody, hserver, _, ⟨selection, hselection, rfl⟩,
      rfl, rfl⟩
    obtain ⟨hclient', hserver', hselection'⟩ := hrest _ h
    obtain rfl := Except.ok.inj (hclient.symm.trans hclient')
    obtain rfl := Except.ok.inj (hserver.symm.trans hserver')
    obtain rfl := Except.ok.inj (hselection.symm.trans hselection')
    exact ⟨h, rfl⟩
  · rintro ⟨h, rfl⟩
    obtain ⟨hclient, hserver, hselection⟩ := hrest _ h
    exact ⟨_, h, _, hclient, _, hserver, _, ⟨_, hselection, rfl⟩, rfl, rfl⟩

theorem Hello.eq_of_fields_eq {hello hello' : Hello} (h : hello.Valid) (h' : hello'.Valid)
    (hfields : hello.fields = hello'.fields) : hello = hello' := by
  have hencode : hello.encode = .ok (recordBytes hello'.fields) :=
    Hello.encode_eq_ok.2 ⟨h, by rw [hfields]⟩
  exact Except.ok.inj ((Hello.decode_eq_ok.2 hencode).symm.trans
    (Hello.decode_eq_ok.2 (Hello.encode_eq_ok.2 ⟨h', rfl⟩)))

/-- **A transcript is the transcript of one negotiation only.** -/
theorem handshakeTranscript_inj {client server client' server' : Hello}
    {profile profile' : SelectedProfile}
    (h : negotiateVersioned client server = .ok profile)
    (h' : negotiateVersioned client' server' = .ok profile')
    (htranscript : transcript client server profile = transcript client' server' profile') :
    client = client' ∧ server = server' ∧ profile = profile' := by
  obtain ⟨hclient, hserver⟩ := negotiateVersioned_valid h
  obtain ⟨hclient', hserver'⟩ := negotiateVersioned_valid h'
  rw [transcript, transcript, handshakeTranscript, handshakeTranscript, List.append_assoc,
    List.append_assoc] at htranscript
  obtain ⟨hclientFields, hrest⟩ :=
    recordBytes_append_inj (show client.fields.length = client'.fields.length from rfl) htranscript
  obtain ⟨hserverFields, hselection⟩ :=
    recordBytes_append_inj (show server.fields.length = server'.fields.length from rfl) hrest
  have hprofileFields : profile.fields = profile'.fields :=
    (recordBytes_append_inj (x := []) (y := [])
      (show profile.fields.length = profile'.fields.length from rfl)
      (by rw [hselection])).1
  exact ⟨Hello.eq_of_fields_eq hclient hclient' hclientFields,
    Hello.eq_of_fields_eq hserver hserver' hserverFields,
    SelectedProfile.eq_of_fields_eq (negotiateVersioned_bounded h) (negotiateVersioned_bounded h')
      hprofileFields⟩

/-- **Negotiation selects safely, and its identity binds both hellos and the selection**, as long as
the digest has no collisions among the transcripts considered. -/
theorem negotiation_safe_and_bound [Blake3] {preimages : Set Bytes}
    (hcollision : Set.InjOn ProtocolHandshakeId.derive preimages)
    {client server client' server' : Hello} {profile profile' : SelectedProfile}
    {identity identity' : ProtocolHandshakeId}
    (h : negotiateIdentityVersioned client server = .ok (profile, identity))
    (h' : negotiateIdentityVersioned client' server' = .ok (profile', identity'))
    (hmem : transcript client server profile ∈ preimages)
    (hmem' : transcript client' server' profile' ∈ preimages) :
    Selects client server profile ∧
      (identity = identity' → client = client' ∧ server = server' ∧ profile = profile') := by
  obtain ⟨hprofile, rfl⟩ := negotiateIdentityVersioned_eq_ok.1 h
  obtain ⟨hprofile', rfl⟩ := negotiateIdentityVersioned_eq_ok.1 h'
  refine ⟨negotiateVersioned_selects hprofile, fun hidentity ↦ ?_⟩
  exact handshakeTranscript_inj hprofile hprofile' (hcollision hmem hmem' hidentity)

/-- A hello of all three versions that offers a native test method. -/
def testingHello (features : UInt32) : Hello where
  protocolVersions := [1, 2, 3]
  schemaEpochs := [Id.splat 1]
  limits := LimitProfile.maximum
  methods := [Method.sessionOpen.tag, testsSelectedTag]
  features := features
  adapters := [Id.splat 2]
  effects := []

/-- What two such hellos select. -/
def testingProfile (features : UInt32) : SelectedProfile where
  protocolVersion := 3
  schemaEpoch := Id.splat 1
  limits := LimitProfile.maximum
  methods := [Method.sessionOpen.tag, testsSelectedTag]
  features := features
  adapters := [Id.splat 2]
  effects := []

/-- A digest that sums the bytes. -/
def summingBlake3 : Blake3 := ⟨fun preimage ↦ Id.splat preimage.sum⟩

/-- The same selection, from clients that differ in a feature the server does not have. -/
theorem negotiation_safe_and_bound_testing :
    letI := summingBlake3
    Selects (testingHello 32) (testingHello 32) (testingProfile 32) ∧
      (ProtocolHandshakeId.derive
          (transcript (testingHello 32) (testingHello 32) (testingProfile 32)) =
        ProtocolHandshakeId.derive
          (transcript (testingHello 33) (testingHello 32) (testingProfile 32)) →
        testingHello 32 = testingHello 33 ∧ testingHello 32 = testingHello 32 ∧
          testingProfile 32 = testingProfile 32) := by
  let _ := summingBlake3
  have h : negotiateVersioned (testingHello 32) (testingHello 32) = .ok (testingProfile 32) := by
    decide
  have h' : negotiateVersioned (testingHello 33) (testingHello 32) = .ok (testingProfile 32) := by
    decide
  have hdistinct :
      ProtocolHandshakeId.derive
          (transcript (testingHello 32) (testingHello 32) (testingProfile 32)) ≠
        ProtocolHandshakeId.derive
          (transcript (testingHello 33) (testingHello 32) (testingProfile 32)) := by
    decide +kernel
  refine negotiation_safe_and_bound (Set.injOn_pair.2 fun heq ↦ absurd heq hdistinct)
    (negotiateIdentityVersioned_eq_ok.2 ⟨h, rfl⟩) (negotiateIdentityVersioned_eq_ok.2 ⟨h', rfl⟩)
    (Set.mem_insert _ _) (Set.mem_insert_of_mem _ rfl)

end Sley.Protocol
