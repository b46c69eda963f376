import GeodeNative.Lib.Fallible
import GeodeNative.Proofs.Region.EntriesMap
import GeodeNative.Region.LocalPutAll

/-!
# A bulk put without concurrency checks

A bulk put on a caching region without concurrency checks adds a tracker to every entry that it is
going to change. Adding a tracker is a placement new on the entry, which clears its key, its value
and its weak pointer to itself. So every later use of the entry through `getImplPtr` throws: the
local put does, and so does the removal of the tracker in the destructor at the end, which ends the
program.

`Reflects` says that a call is not ended by the entries map, and that after `GF_NOERR` the entries
have the values of the map. `putAllNoThrow_reflects_iff`: along a history of calls this is the case
exactly when all the maps are empty.
-/

set_option autoImplicit false

namespace GeodeNative.Region

open Cache Cache.MapSegment
open Proofs.Cache Lib

variable {S K V D M X : Type} [DecidableEq K]

/-! ### One segment -/

section Segment
variable {s : MapSegment K V} {key : K}

theorem trackEntry_count {e : MapEntry K V} {c : Int} {incUpdateCount : Bool}
    (h : (s.trackEntry key e incUpdateCount).1 = .ok c) : 0 ≤ c := by
  unfold trackEntry at h
  split at h
  · cases h
  · split at h
    · split at h <;> cases h
      exact Int.natCast_nonneg _
    · cases h
      exact Int.natCast_nonneg _

/-- A tracker that is added leaves a wiped entry, and the count is not negative. -/
theorem addTrackerForEntry_wipes (hdis : s.concurrencyChecksEnabled = false)
    (hshape : ShapedAt (s.find key)) {incUpdateCount : Bool} {c : Int} {old : CacheablePtr V}
    (h : (s.addTrackerForEntry key true false incUpdateCount).1 = .ok (c, old)) :
    0 ≤ c ∧ ∃ w, Wiped w ∧
      SetsAt key (some (.impl w)) s (s.addTrackerForEntry key true false incUpdateCount).2 := by
  have hcount : 0 ≤ c := by
    unfold addTrackerForEntry at h
    rw [if_neg (Bool.eq_false_iff.mp hdis)] at h
    cases hfind : s.find key with
    | none =>
      rw [hfind] at h
      obtain ⟨c', hc', heq⟩ := ok_of_map h
      cases heq
      exact trackEntry_count hc'
    | some e =>
      rw [hfind] at h
      dsimp only at h
      obtain ⟨c', hc', heq⟩ := ok_of_map h
      cases heq
      exact trackEntry_count hc'
  refine ⟨hcount, ?_⟩
  obtain ⟨hsame, -⟩ | ⟨-, hwiped⟩ :=
    addTrackerForEntry_disabled s key hdis hshape true false incUpdateCount
  · have := hsame c old h
    omega
  · exact hwiped

/-- Whatever happens, the entry of the key is unchanged or wiped, and no other entry changes. -/
theorem addTrackerForEntry_sets (hdis : s.concurrencyChecksEnabled = false)
    (hshape : ShapedAt (s.find key)) :
    ∃ x, SetsAt key x s (s.addTrackerForEntry key true false true).2 ∧
      (x = s.find key ∨ ∃ w, Wiped w ∧ x = some (.impl w)) := by
  obtain ⟨-, hsame⟩ | ⟨-, w, hw, hsets⟩ :=
    addTrackerForEntry_disabled s key hdis hshape true false true
  · rw [hsame]
    exact ⟨s.find key, .same rfl, .inl rfl⟩
  · exact ⟨_, hsets, .inr ⟨w, hw, rfl⟩⟩

end Segment

/-! ### The entries map -/

section Map
variable {map : TrackingMap S K V D M X} {m m' : S} {key : K}

/-- A map without concurrency checks: its entries are untracked or wiped. -/
structure Unchecked (map : TrackingMap S K V D M X) (m : S) : Prop where
  checks : map.concurrencyChecksEnabled m = false
  segments : ∀ k, (map.segmentFor m k).concurrencyChecksEnabled = false
  shaped : ∀ k, ShapedAt (map.find m k)

/-- The entry of the key is wiped. -/
def WipedAt (map : TrackingMap S K V D M X) (m : S) (key : K) : Prop :=
  ∃ w, Wiped w ∧ map.find m key = some (.impl w)

/-- The map `m'` is `m` with the segment of `key` replaced by `s`. -/
def TrackingMap.Replaced (map : TrackingMap S K V D M X) (m : S) (key : K) (s : MapSegment K V)
    (m' : S) : Prop :=
  Replaces map.concurrencyChecksEnabled map.segmentIdx map.segmentFor m key s m'

variable {s : MapSegment K V}

theorem find_of_replaced (h : map.Replaced m key s m') {x : Option (MapEntry K V)}
    (hsets : SetsAt key x (map.segmentFor m key) s) (k : K) :
    map.find m' k = if k = key then x else map.find m k := by
  unfold EntriesMap.find
  rw [h.segment k]
  split
  · next hidx =>
    rw [hsets.find, ← map.segment_congr m k key hidx]
  · next hidx =>
    rw [if_neg fun heq => hidx (congrArg _ heq)]

theorem Unchecked.replaced (hm : Unchecked map m) (h : map.Replaced m key s m')
    {x : Option (MapEntry K V)} (hsets : SetsAt key x (map.segmentFor m key) s) (hx : ShapedAt x) :
    Unchecked map m' where
  checks := h.checks.trans hm.checks
  segments k := by
    rw [h.segment k]
    split
    · exact hsets.flag.trans (hm.segments key)
    · exact hm.segments k
  shaped k := by
    rw [find_of_replaced h hsets]
    split
    · exact hx
    · exact hm.shaped k

/-- A tracker that is added keeps the wiped entries. When the call returns, its count is not
negative and the entry of the key is wiped too. -/
theorem track_spec (hm : Unchecked map m) (key : K) :
    ∃ r m', map.addTrackerForEntry m key = (r, m') ∧ Unchecked map m' ∧
      (∀ k, WipedAt map m k → WipedAt map m' k) ∧
      ∀ c old, r = .ok (c, old) → 0 ≤ c ∧ WipedAt map m' key := by
  obtain ⟨m', hcall, hreplaced⟩ := map.track_eq m key hm.checks _ _ rfl
  obtain ⟨x, hsets, hx⟩ := addTrackerForEntry_sets (hm.segments key) (hm.shaped key)
  have hfind := find_of_replaced hreplaced hsets
  refine ⟨_, m', hcall, ?_, ?_, ?_⟩
  · refine hm.replaced hreplaced hsets ?_
    obtain rfl | ⟨w, hw, rfl⟩ := hx
    · exact hm.shaped key
    · exact hw.shapedAt
  · rintro k ⟨w, hw, hk⟩
    by_cases heq : k = key
    · subst heq
      obtain rfl | ⟨w', hw', rfl⟩ := hx
      · exact ⟨w, hw, by rw [hfind, if_pos rfl]; exact hk⟩
      · exact ⟨w', hw', by rw [hfind, if_pos rfl]⟩
    · exact ⟨w, hw, by rw [hfind, if_neg heq]; exact hk⟩
  · intro c old hok
    obtain ⟨hc, w, hw, hwiped⟩ :=
      addTrackerForEntry_wipes (hm.segments key) (hm.shaped key) (ok_of_mapError hok)
    refine ⟨hc, w, hw, ?_⟩
    rw [find_of_replaced hreplaced hwiped, if_pos rfl]

/-- The maps `m` and `m'` have the same entries and the same flags. -/
structure SameEntries (map : TrackingMap S K V D M X) (m m' : S) : Prop where
  checks : map.concurrencyChecksEnabled m' = map.concurrencyChecksEnabled m
  segments : ∀ k, (map.segmentFor m' k).concurrencyChecksEnabled =
    (map.segmentFor m k).concurrencyChecksEnabled
  find : ∀ k, map.find m' k = map.find m k

theorem SameEntries.refl (map : TrackingMap S K V D M X) (m : S) : SameEntries map m m :=
  ⟨rfl, fun _ => rfl, fun _ => rfl⟩

theorem SameEntries.unchecked (h : SameEntries map m m') (hm : Unchecked map m) :
    Unchecked map m' where
  checks := h.checks.trans hm.checks
  segments k := (h.segments k).trans (hm.segments k)
  shaped k := by
    rw [h.find]
    exact hm.shaped k

theorem sameEntries_of_replaced (h : map.Replaced m key s m')
    (hfind : ∀ k, s.find k = (map.segmentFor m key).find k)
    (hflag : s.concurrencyChecksEnabled = (map.segmentFor m key).concurrencyChecksEnabled) :
    SameEntries map m m' where
  checks := h.checks
  segments k := by
    rw [h.segment k]
    split
    · next hidx => rw [hflag, map.segment_congr m k key hidx]
    · rfl
  find k := by
    unfold EntriesMap.find
    rw [h.segment k]
    split
    · next hidx => rw [hfind, map.segment_congr m k key hidx]
    · rfl

/-- A local put on a wiped entry throws or is not done, and changes no entry. -/
theorem putNoThrow_wiped (hwiped : WipedAt map m key) (listener : K → CacheablePtr V → Bool)
    (value : CacheablePtr V) (updateCount : Int) (tag : Option VersionTag) :
    ∃ r m', putNoThrow map listener m key value updateCount tag = (r, m') ∧
      (r = .ok .illegalArgument ∨ ∃ x, r = .error x) ∧ SameEntries map m m' := by
  unfold putNoThrow
  by_cases hnull : value.isNull = true
  · rw [if_pos hnull]
    exact ⟨_, m, rfl, .inl rfl, .refl map m⟩
  · rw [if_neg hnull]
    obtain ⟨w, hw, hfind⟩ := hwiped
    obtain ⟨m', hput, hreplaced⟩ := map.put_throws m key value updateCount tag _ _
      (put_wiped (map.region m) (map.segmentFor m key) key value updateCount 0 tag hfind hw none)
    rw [hput]
    exact ⟨_, m', rfl, .inr ⟨_, rfl⟩, sameEntries_of_replaced hreplaced
      (fun k => find_rehashIfNeeded _ k) (concurrencyChecksEnabled_rehashIfNeeded _)⟩

theorem untrack_wiped (hm : Unchecked map m) (hwiped : WipedAt map m key) :
    ∃ x m', map.removeTrackerForEntry m key = (.error x, m') := by
  obtain ⟨w, hw, hfind⟩ := hwiped
  obtain ⟨m', h⟩ := map.untrack_throws m key hm.checks _ _
    (removeTrackerForEntry_wiped (map.segmentFor m key) key (hm.segments key) hfind hw)
  exact ⟨_, m', h⟩

end Map

/-! ### The loops -/

variable {nodes : List (Option (K × CacheablePtr V))}

section Loops
variable {map : TrackingMap S K V D M X}

/-- Every entry that has a tracker is wiped. -/
structure Tracked (map : TrackingMap S K V D M X) (st : TrackState S K V) : Prop where
  unchecked : Unchecked map st.entries
  wiped : ∀ node ∈ st.oldValueMap, 0 ≤ node.2.2 ∧ WipedAt map st.entries node.1

/-- The loop over the keys ends by an exception before it has added a tracker, or some entry has a
tracker. When it goes through, all entries are wiped. -/
structure TrackedBy (map : TrackingMap S K V D M X) (st : TrackState S K V)
    (nodes : List (K × CacheablePtr V)) (res : Except (Stop X) Unit × TrackState S K V) : Prop where
  tracked : Tracked map res.2
  keeps : ∀ k, WipedAt map st.entries k → WipedAt map res.2.entries k
  nonempty : st.oldValueMap ≠ [] ∨ nodes ≠ [] →
    (∃ x, res.1 = .error (.throws x)) ∨ res.2.oldValueMap ≠ []
  all : res.1 = .ok () → ∀ node ∈ nodes, WipedAt map res.2.entries node.1

theorem trackEntries_spec (writer : Option (K → CacheablePtr V → CacheablePtr V → Bool))
    (oldValue : CacheablePtr V) {st : TrackState S K V} (hst : Tracked map st)
    (nodes : List (K × CacheablePtr V)) :
    TrackedBy map st nodes (trackEntries map writer true oldValue st nodes) := by
  induction nodes generalizing oldValue st with
  | nil =>
    refine ⟨hst, fun _ h => h, fun h => .inr (h.resolve_right fun hne => hne rfl), ?_⟩
    exact fun _ _ h => nomatch h
  | cons node rest ih =>
    obtain ⟨key, value⟩ := node
    obtain ⟨r, m', hcall, hm', hkeep, hok⟩ := track_spec hst.unchecked key
    unfold trackEntries
    rw [if_pos (show (true && !map.concurrencyChecksEnabled st.entries) = true by
      rw [hst.unchecked.checks]; rfl), hcall]
    cases r with
    | error x =>
      refine ⟨⟨hm', fun node hnode => ?_⟩, hkeep, fun _ => .inl ⟨x, rfl⟩, nofun⟩
      exact ⟨(hst.wiped node hnode).1, hkeep _ (hst.wiped node hnode).2⟩
    | ok res =>
      obtain ⟨c, old⟩ := res
      obtain ⟨hc, hwiped⟩ := hok c old rfl
      have hst' : Tracked map ⟨m', st.oldValueMap ++ [(key, old, c)]⟩ := by
        refine ⟨hm', fun node hnode => ?_⟩
        obtain hnode | hnode := List.mem_append.mp hnode
        · exact ⟨(hst.wiped node hnode).1, hkeep _ (hst.wiped node hnode).2⟩
        · cases List.mem_singleton.mp hnode
          exact ⟨hc, hwiped⟩
      have hne : st.oldValueMap ++ [(key, old, c)] ≠ [] :=
        List.append_ne_nil_of_right_ne_nil _ (List.cons_ne_nil _ _)
      have hrest : TrackedBy map st ((key, value) :: rest)
          (trackEntries map writer true old ⟨m', st.oldValueMap ++ [(key, old, c)]⟩ rest) := by
        have h := ih old hst'
        refine ⟨h.tracked, fun k hk => h.keeps k (hkeep k hk), fun _ => h.nonempty (.inl hne),
          fun hgo => List.forall_mem_cons.mpr ⟨h.keeps key hwiped, h.all hgo⟩⟩
      cases writer with
      | none => exact hrest
      | some agrees =>
        dsimp only
        split
        · exact hrest
        · exact ⟨hst', hkeep, fun _ => .inr hne, nofun⟩

/-- The loop over the local puts does not get past a wiped entry, and changes no entry. -/
theorem putAllLocal_wiped (listener : K → CacheablePtr V → Bool)
    (oldValueMap : List (K × CacheablePtr V × Int)) (tags : List (Option VersionTag)) (i : Nat)
    (tag : Option VersionTag) (err : RegionErr) {m : S}
    (hnodes : ∀ node, some node ∈ nodes → WipedAt map m node.1) :
    SameEntries map m (putAllLocal map listener oldValueMap tags i tag err m nodes).2 := by
  cases nodes with
  | nil => exact .refl map m
  | cons node rest =>
    cases node with
    | none => exact .refl map m
    | some node =>
      obtain ⟨key, value⟩ := node
      unfold putAllLocal
      split
      · exact .refl map m
      · next tag' _ =>
        obtain ⟨r, m', hput, hr, hsame⟩ := putNoThrow_wiped
          (hnodes (key, value) List.mem_cons_self) listener value (updateCountOf oldValueMap key)
            tag'
        rw [hput]
        obtain rfl | ⟨x, rfl⟩ := hr
        · exact hsame
        · exact hsame

theorem removeTracking_wiped {m : S} {nodes : List (K × CacheablePtr V × Int)} (hne : nodes ≠ [])
    (hm : Unchecked map m) (hnodes : ∀ node ∈ nodes, 0 ≤ node.2.2 ∧ WipedAt map m node.1) :
    ∃ x m', removeTracking map m nodes = (.error x, m') := by
  cases nodes with
  | nil => exact absurd rfl hne
  | cons node rest =>
    obtain ⟨key, old, c⟩ := node
    obtain ⟨hc, hwiped⟩ := hnodes (key, old, c) List.mem_cons_self
    obtain ⟨x, m', h⟩ := untrack_wiped hm hwiped
    refine ⟨x, m', ?_⟩
    unfold removeTracking
    rw [if_pos hc, h]

end Loops

/-! ### The call -/

section Call
variable {map : TrackingMap S K V D M X}

/-- The entries map ends the call, by an exception or by one that a destructor lets out. -/
def PutAllExit.isLocal : PutAllExit X → Bool
  | .map _ => true
  | .terminate => true
  | _ => false

/-- The entries map does not end the call, and after `GF_NOERR` the local entry of every key of the
map holds the value that the map gives it. -/
structure Reflects (map : TrackingMap S K V D M X) (r : LocalRegion S) (call : PutAllCall K V) :
    Prop where
  ends : ∀ e, (call.putAllNoThrow map r).1 = .error e → e.isLocal = false
  values : (call.putAllNoThrow map r).1 = .ok (.gf .noErr) → ∀ node ∈ call.entries.nodes,
    ∃ entry, map.find (call.putAllNoThrow map r).2.entries node.1 = some entry ∧
      entry.obj.value = node.2

/-- A caching region without concurrency checks. -/
structure PlainRegion (map : TrackingMap S K V D M X) (r : LocalRegion S) : Prop where
  cachingEnabled : r.cachingEnabled = true
  unchecked : Unchecked map r.entries

variable {r : LocalRegion S} {call : PutAllCall K V}

theorem mem_of_localNodes {flag : Bool} {list : ObjectPartList K}
    (h : call.localNodes flag list = some nodes) {node : K × CacheablePtr V}
    (hnode : some node ∈ nodes) : node ∈ call.entries.nodes := by
  unfold PutAllCall.localNodes at h
  split at h
  · obtain ⟨keys, -, rfl⟩ := Option.map_eq_some_iff.mp h
    obtain ⟨key, -, hfind⟩ := List.mem_map.mp hnode
    exact List.mem_of_find?_eq_some hfind
  · cases h
    obtain ⟨node', hmem, heq⟩ := List.mem_map.mp hnode
    exact Option.some.inj heq ▸ hmem

/-- The call after the trackers were added changes no entry when the entries of all keys are
wiped. -/
theorem remoteAndLocal_same (flag : Bool) (st : TrackState S K V)
    (hwiped : ∀ node ∈ call.entries.nodes, WipedAt map st.entries node.1) :
    SameEntries map st.entries (call.remoteAndLocal map true flag st).2.1 := by
  unfold PutAllCall.remoteAndLocal
  split
  · exact .refl map _
  · split
    · exact .refl map _
    · rw [if_pos rfl]
      split
      · exact .refl map _
      · next nodes hnodes =>
        exact putAllLocal_wiped _ _ _ _ _ _ fun node hnode =>
          hwiped node (mem_of_localNodes hnodes hnode)

/-- An entry that has a tracker at the end of the call ends the program. -/
theorem leave_wiped {st : TrackState S K V} (hst : Tracked map st) (hne : st.oldValueMap ≠ [])
    {m : S} (hsame : SameEntries map st.entries m) (res : Except (PutAllExit X) RegionErr)
    (flag : Bool) : (PutAllCall.leave map r st.oldValueMap res m flag).1 = .error .terminate := by
  have hm := hsame.unchecked hst.unchecked
  obtain ⟨x, m', h⟩ := removeTracking_wiped hne hm fun node hnode => by
    obtain ⟨hcount, w, hw, hfind⟩ := hst.wiped node hnode
    exact ⟨hcount, w, hw, (hsame.find node.1).trans hfind⟩
  unfold PutAllCall.leave
  rw [if_neg (Bool.eq_false_iff.mp hm.checks), h]

theorem leave_nil {m : S} (hm : map.concurrencyChecksEnabled m = false)
    (res : Except (PutAllExit X) RegionErr) (flag : Bool) :
    PutAllCall.leave map r ([] : List (K × CacheablePtr V × Int)) res m flag =
      (res, { r with entries := m, isPRSingleHopEnabled := flag }) := by
  unfold PutAllCall.leave
  rw [if_neg (Bool.eq_false_iff.mp hm)]
  rfl

/-- With a key in the map the entries map ends the call. -/
theorem putAllNoThrow_ends (hr : PlainRegion map r) (hne : call.entries.nodes ≠ []) :
    ∃ e, (call.putAllNoThrow map r).1 = .error e ∧ e.isLocal = true := by
  have hstart : Tracked map (⟨r.entries, []⟩ : TrackState S K V) := ⟨hr.unchecked, nofun⟩
  have htrack := trackEntries_spec call.writer .null hstart call.entries.nodes
  unfold PutAllCall.putAllNoThrow
  rw [hr.cachingEnabled, if_pos (Bool.true_or _)]
  revert htrack
  rcases trackEntries map call.writer true .null ⟨r.entries, []⟩ call.entries.nodes with ⟨res, st⟩
  intro htrack
  have hstate := htrack.nonempty (.inr hne)
  cases res with
  | error stop =>
    cases stop with
    | returns err =>
      have htracked := hstate.resolve_left fun ⟨x, hx⟩ => by cases hx
      exact ⟨_, leave_wiped htrack.tracked htracked (.refl map _) _ _, rfl⟩
    | throws x =>
      by_cases hempty : st.oldValueMap = []
      · refine ⟨.map x, ?_, rfl⟩
        dsimp only
        rw [hempty, leave_nil htrack.tracked.unchecked.checks]
      · exact ⟨_, leave_wiped htrack.tracked hempty (.refl map _) _ _, rfl⟩
  | ok _ =>
    -- the entries stay wiped until the destructor runs
    have htracked := hstate.resolve_left fun ⟨x, hx⟩ => by cases hx
    have hsame := remoteAndLocal_same r.isPRSingleHopEnabled st (htrack.all rfl)
    exact ⟨_, leave_wiped htrack.tracked htracked hsame _ _, rfl⟩

/-- With an empty map no local put is made, and the entries map does not end the call. -/
theorem putAllNoThrow_empty (hr : PlainRegion map r) (hnodes : call.entries.nodes = []) :
    (∀ e, (call.putAllNoThrow map r).1 = .error e → e.isLocal = false) ∧
      (call.putAllNoThrow map r).2.cachingEnabled = true ∧
      SameEntries map r.entries (call.putAllNoThrow map r).2.entries := by
  obtain ⟨caching, flag, m⟩ := r
  obtain rfl : caching = true := hr.cachingEnabled
  have hsame : SameEntries map m (call.remoteAndLocal map true flag ⟨m, []⟩).2.1 := by
    refine remoteAndLocal_same flag ⟨m, []⟩ ?_
    rw [hnodes]
    nofun
  have hcall : call.putAllNoThrow map ⟨true, flag, m⟩ =
      ((call.remoteAndLocal map true flag ⟨m, []⟩).1,
        ⟨true, (call.remoteAndLocal map true flag ⟨m, []⟩).2.2,
          (call.remoteAndLocal map true flag ⟨m, []⟩).2.1⟩) := by
    unfold PutAllCall.putAllNoThrow
    rw [if_pos (Bool.true_or _), hnodes]
    exact leave_nil (hsame.unchecked hr.unchecked).checks _ _
  rw [hcall]
  refine ⟨fun e he => ?_, rfl, hsame⟩
  unfold PutAllCall.remoteAndLocal at he
  split at he
  · cases he
    rfl
  · split at he
    · cases he
    · rw [if_pos rfl] at he
      split at he
      · cases he
        rfl
      · next nodes hlocal =>
        -- every succeeded key is missing in the map
        cases nodes with
        | nil => cases he
        | cons node rest =>
          cases node with
          | none =>
            cases he
            rfl
          | some node =>
            have hmem := mem_of_localNodes hlocal (List.mem_cons_self : some node ∈ _)
            rw [hnodes] at hmem
            cases hmem

theorem reflects_iff (hr : PlainRegion map r) : Reflects map r call ↔ call.entries.nodes = [] := by
  constructor
  · intro h
    by_contra hne
    obtain ⟨e, he, hlocal⟩ := putAllNoThrow_ends hr hne
    exact Bool.false_ne_true ((h.ends e he).symm.trans hlocal)
  · intro hnodes
    refine ⟨(putAllNoThrow_empty hr hnodes).1, ?_⟩
    rw [hnodes]
    exact fun _ => nofun

/-- Bulk puts on a caching region without concurrency checks. For every history of calls, with any
routing and any replies of the servers, no call is ended by the entries map and every call that
returns `GF_NOERR` is reflected in the local entries, exactly when the maps of all calls are
empty. -/
theorem putAllNoThrow_reflects_iff (map : TrackingMap S K V D M X) (r : LocalRegion S)
    (hr : PlainRegion map r) (calls : List (PutAllCall K V)) :
    Along (fun r (call : PutAllCall K V) => (call.putAllNoThrow map r).2) (Reflects map) r calls ↔
      ∀ call ∈ calls, call.entries.nodes = [] := by
  have hiff : ∀ r (call : PutAllCall K V), PlainRegion map r →
      (Reflects map r call ↔ call.entries.nodes = []) := fun _ _ hr => reflects_iff hr
  have hkeep : ∀ r (call : PutAllCall K V), PlainRegion map r → Reflects map r call →
      PlainRegion map (call.putAllNoThrow map r).2 := by
    intro r call hr h
    obtain ⟨-, hcaching, hsame⟩ := putAllNoThrow_empty hr ((hiff r call hr).mp h)
    exact ⟨hcaching, hsame.unchecked hr.unchecked⟩
  exact (along_congr hiff hkeep hr).trans (along_actions_iff r calls)

end Call

/-! ### The two maps -/

section Maps
variable {n : Nat} [NeZero n]

omit [DecidableEq K] in
theorem replaces_setSegment (m : ConcurrentEntriesMap K V n) (key : K) (s : MapSegment K V) :
    Replaces ConcurrentEntriesMap.concurrencyChecksEnabled
      (fun (m : ConcurrentEntriesMap K V n) k => (m.segmentIdx k).val)
      ConcurrentEntriesMap.segmentFor m key s (m.setSegment key s) where
  checks := rfl
  segment k := by
    show Function.update m.segments (m.segmentIdx key) s (m.segmentIdx k) = _
    rw [Function.update_apply]
    simp only [Fin.ext_iff]
    rfl

/-- The entries map of a region without eviction. -/
def concurrentTracking (region : RegionInternal K V D M) :
    TrackingMap (ConcurrentEntriesMap K V n) K V D M CacheException where
  toEntriesMap := Proofs.Region.concurrentMap region
  concurrencyChecksEnabled := ConcurrentEntriesMap.concurrencyChecksEnabled
  wrap := id
  segmentIdx m k := (m.segmentIdx k).val
  put m key value updateCount tag := m.put region key value updateCount 0 tag none
  addTrackerForEntry m key := m.addTrackerForEntry key true false true
  removeTrackerForEntry m key := m.removeTrackerForEntry key
  segment_congr m k k' h := congrArg m.segments (Fin.ext h)
  put_throws m key value updateCount tag x s h := by
    have hseg : (m.segmentFor key).put region key value updateCount 0 tag none = (.error x, s) := h
    refine ⟨m.setSegment key s, ?_, replaces_setSegment m key s⟩
    unfold ConcurrentEntriesMap.put
    rw [hseg]
  track_eq m key hdis r s h := by
    have hseg : (m.segmentFor key).addTrackerForEntry key true false true = (r, s) := h
    refine ⟨m.setSegment key s, ?_, replaces_setSegment m key s⟩
    unfold ConcurrentEntriesMap.addTrackerForEntry
    rw [if_neg (Bool.eq_false_iff.mp hdis), hseg]
    cases r <;> rfl
  untrack_throws m key hdis x s h := by
    have hseg : (m.segmentFor key).removeTrackerForEntry key = (.error x, s) := h
    refine ⟨m.setSegment key s, ?_⟩
    unfold ConcurrentEntriesMap.removeTrackerForEntry
    rw [if_neg (Bool.eq_false_iff.mp hdis), hseg]

/-- The entries map of a region with eviction. It inherits the functions for the trackers. -/
def lruTracking {P Q : Type} (env : LRURegion K V D M P Q) :
    TrackingMap (LRUEntriesMap K V P Q n) K V D M LRUException where
  toEntriesMap := Proofs.Region.lruMap env
  concurrencyChecksEnabled m := m.concurrencyChecksEnabled
  wrap := .cache
  segmentIdx m k := (m.segmentIdx k).val
  put m key value updateCount tag := m.put env key value updateCount 0 tag none
  addTrackerForEntry m key :=
    let r := m.toConcurrentEntriesMap.addTrackerForEntry key true false true
    (r.1.mapError .cache, { m with toConcurrentEntriesMap := r.2 })
  removeTrackerForEntry m key :=
    let r := m.toConcurrentEntriesMap.removeTrackerForEntry key
    (r.1.mapError .cache, { m with toConcurrentEntriesMap := r.2 })
  segment_congr m k k' h := congrArg m.segments (Fin.ext h)
  put_throws m key value updateCount tag x s h := by
    have hseg : (m.segmentFor key).put (m.region env) key value updateCount 0 tag none =
        (.error x, s) := h
    refine ⟨m.changeSegment key s, ?_, ?_⟩
    · unfold LRUEntriesMap.put
      rw [hseg]
    · obtain ⟨unbound, hchange⟩ := LRUEntriesMap.changeSegment_eq m key s
      rw [hchange]
      have hreplaces := replaces_setSegment m.toConcurrentEntriesMap key s
      exact ⟨hreplaces.checks, hreplaces.segment⟩
  track_eq m key hdis r s h := by
    obtain ⟨m', hm', hreplaces⟩ :=
      (concurrentTracking env.toRegionInternal).track_eq m.toConcurrentEntriesMap key hdis r s h
    refine ⟨{ m with toConcurrentEntriesMap := m' }, ?_, hreplaces.checks, hreplaces.segment⟩
    have hcall : m.toConcurrentEntriesMap.addTrackerForEntry key true false true =
        (r.mapError id, m') := hm'
    rw [hcall]
    cases r <;> rfl
  untrack_throws m key hdis x s h := by
    obtain ⟨m', hm'⟩ := (concurrentTracking env.toRegionInternal).untrack_throws
      m.toConcurrentEntriesMap key hdis x s h
    refine ⟨{ m with toConcurrentEntriesMap := m' }, ?_⟩
    have hcall : m.toConcurrentEntriesMap.removeTrackerForEntry key = (.error x, m') := hm'
    rw [hcall]
    rfl

end Maps

/-! ### One call -/

/-- A new region over numbers without concurrency checks. -/
def emptyRegion : LocalRegion (ConcurrentEntriesMap Nat Nat 1) where
  cachingEnabled := true
  isPRSingleHopEnabled := false
  entries := ConcurrentEntriesMap.open (fun _ => 0) 0 false

/-- A call through multi-hop that the server answers without tags, without a writer or a
listener. -/
def multiHopCall (entries : HashMapOfCacheable Nat (CacheablePtr Nat)) : PutAllCall Nat Nat where
  entries := entries
  env := {
    filter := {
      hashcode := fun key => BitVec.ofNat 32 key
      resolver := none
      isPrimary := true
      randgen := fun _ => 0
      order := UnorderedMap.inOrder }
    metadata := none
    requestOrder := UnorderedMap.inOrder
    resultOrder := UnorderedMap.inOrder
    failedOrder := UnorderedMap.inOrder
    reply := fun _ _ => ⟨none, .reply, [.nullObject]⟩ }
  prSingleHopEnabled := false
  writer := none
  listener := fun _ _ => false

/-- A call with the empty map returns `GF_NOERR`. -/
theorem putAllNoThrow_reflects_iff_empty :
    ((multiHopCall ⟨[], List.nodup_nil⟩).putAllNoThrow (concurrentTracking MapSegment.natRegion)
      emptyRegion).1 = .ok (.gf .noErr) ∧
    Along (fun r (call : PutAllCall Nat Nat) =>
        (call.putAllNoThrow (concurrentTracking MapSegment.natRegion) r).2)
      (Reflects (concurrentTracking MapSegment.natRegion)) emptyRegion
      [multiHopCall ⟨[], List.nodup_nil⟩] := by
  have hplain : PlainRegion (concurrentTracking MapSegment.natRegion) emptyRegion :=
    ⟨rfl, rfl, fun _ => rfl, fun _ => shapedAt_none⟩
  refine ⟨rfl, (putAllNoThrow_reflects_iff _ emptyRegion hplain _).mpr ?_⟩
  intro call hcall
  cases List.mem_singleton.mp hcall
  rfl

/-- A call with one key on a new region. The server has put the entry. The local put throws, and the
destructor throws again, which ends the program. -/
theorem putAllNoThrow_terminates :
    (multiHopCall ⟨[(1, .object 5)], by decide⟩).putAllNoThrowRemote false =
        (.ok (.gf .noErr, .empty), false) ∧
      ((multiHopCall ⟨[(1, .object 5)], by decide⟩).putAllNoThrow
        (concurrentTracking MapSegment.natRegion) emptyRegion).1 = .error .terminate ∧
      ¬ Reflects (concurrentTracking MapSegment.natRegion) emptyRegion
        (multiHopCall ⟨[(1, .object 5)], by decide⟩) := by
  have hend : ((multiHopCall ⟨[(1, .object 5)], by decide⟩).putAllNoThrow
      (concurrentTracking MapSegment.natRegion) emptyRegion).1 = .error .terminate := by
    rfl
  exact ⟨rfl, hend, fun h => Bool.false_ne_true (h.ends _ hend).symm⟩

end GeodeNative.Region
