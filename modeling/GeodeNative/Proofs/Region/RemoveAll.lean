import GeodeNative.Proofs.Region.EntriesMap
import GeodeNative.Proofs.Region.MultiHopReply

/-!
# What a bulk removal leaves in the local cache

After a multi-hop `removeAll` the local cache should follow the reply. With version tags, a key
with a tag that is newer than the local version is gone, and a key with a null tag is as it was.
Without tags all keys are gone.

The loop of `removeAllNoThrow` takes a null tag for a key that the server did not have. The list of
the result collector always exists, so without tags every key looks like that and nothing is
removed. And when an earlier bulk operation on the region was routed with one hop, the loop goes
over the succeeded keys of the list. A multi-hop reply has none, unless it repeats the keys.

`removeAllNoThrow_reflected_iff` has the exact condition. The loop lemma is `removeAllLocal_ok`:
each key is decided by its own turn.
-/

set_option autoImplicit false

namespace GeodeNative.Region

open Cache Proofs.Cache Proofs.Region

/-! ### The local part -/

section Local
variable {S K V D M X : Type} [DecidableEq K] (map : EntriesMap S K V D M X)
  (listener : K → CacheablePtr V → Bool)

/-- The tag is newer than what the local cache has of the key: the version check accepts it. Without
concurrency checks there are no versions to compare. -/
def Newer (m : S) (k : K) (t : VersionTag) : Prop :=
  ∀ e, map.find m k = some e → (map.segmentFor m k).concurrencyChecksEnabled = true →
    e.getVersionStamp.processVersionTag map.members (some t) false = .noErr

variable {t : VersionTag}

/-- What a call leaves of a key that it was told to remove with the tag `t`. -/
def Follows (m m' : S) (k : K) (t : VersionTag) : Prop := Newer map m k t → ¬ Live (map.find m' k)

/-- The same lookup and the same mode at `k`. -/
def SameAt (m m' : S) (k : K) : Prop :=
  map.find m' k = map.find m k ∧
    (map.segmentFor m' k).concurrencyChecksEnabled = (map.segmentFor m k).concurrencyChecksEnabled

variable {map}

theorem SameAt.trans {m m' m'' : S} {k : K} (h : SameAt map m m' k) (h' : SameAt map m' m'' k) :
    SameAt map m m'' k :=
  ⟨h'.1.trans h.1, h'.2.trans h.2⟩

theorem remove_follows {m : S} {key : K} {res : RemoveResult V}
    (hres : (map.remove m key (-1) (some t) false).1 = .ok res) :
    Follows map m (map.remove m key (-1) (some t) false).2 key t := by
  intro hnew
  obtain ⟨res', hres', -⟩ := map.remove_ok m key (-1) (some t) false res hres
  obtain ⟨x, hsets, houtcome⟩ :=
    remove_outcome (map.region m) (map.segmentFor m key) key (-1) (some t) false
  have hfind : map.find (map.remove m key (-1) (some t) false).2 key = x := by
    refine (map.remove_find m key (-1) (some t) false key).trans ?_
    rw [if_pos rfl, hsets.find_self]
  rw [hfind]
  obtain ⟨e, he, hcheck, -⟩ | ⟨hlive, -⟩ := houtcome res' hres'
  · -- the check does not fail, with checks or without
    unfold MapSegment.checkVersion at hcheck
    split at hcheck
    · next hen =>
      dsimp only at hcheck
      rw [map.region_members, hnew e he hen] at hcheck
      cases hcheck
    · cases hcheck
  · exact hlive

variable {listener}

theorem destroyNoThrow_ok {m m' : S} {key : K} {err : RegionErr}
    (h : destroyNoThrow map listener m key (-1) (some t) = (.ok err, m')) :
    (∀ k, k ≠ key → SameAt map m m' k) ∧ Follows map m m' key t := by
  have hother : ∀ k, k ≠ key → SameAt map m (map.remove m key (-1) (some t) false).2 k := by
    intro k hk
    refine ⟨?_, map.remove_flag m key (-1) (some t) false k⟩
    refine (map.remove_find m key (-1) (some t) false k).trans ?_
    rw [if_neg hk]
    rfl
  unfold destroyNoThrow at h
  rcases hremove : map.remove m key (-1) (some t) false with ⟨x | res, m₁⟩
  · rw [hremove] at h
    cases h
  · have hfollows := remove_follows (congrArg Prod.fst hremove)
    rw [hremove] at h hother hfollows
    have hm : m₁ = m' := by
      dsimp only at h
      split at h <;> exact (Prod.mk.inj h).2
    rw [← hm]
    exact ⟨hother, hfollows⟩

/-- What the loop leaves of a key whose tag is `tag?`: a key with a null tag is not touched. -/
def Decided (map : EntriesMap S K V D M X) (m m' : S) (k : K) : Option VersionTag → Prop
  | none => SameAt map m m' k
  | some t => Follows map m m' k t

/-- The loop with tags, when it returns `GF_NOERR`: every key had a tag and is decided by it, and
no other key has changed. -/
theorem removeAllLocal_ok {tags : List (Option VersionTag)} (htags : tags ≠ []) {keys : List K}
    (hkeys : keys.Nodup) {keyIndex : Nat} {versionTag : Option VersionTag} {err : RegionErr}
    {m m' : S}
    (h : removeAllLocal map listener tags keyIndex versionTag err m keys = (.ok (.gf .noErr), m')) :
    (∀ k, k ∉ keys → SameAt map m m' k) ∧
      ∀ i k, keys[i]? = some k →
        ∃ tag?, tags[keyIndex + i]? = some tag? ∧ Decided map m m' k tag? := by
  induction keys generalizing keyIndex versionTag err m with
  | nil =>
    obtain rfl := (Prod.mk.inj h).2
    exact ⟨fun _ _ => ⟨rfl, rfl⟩, nofun⟩
  | cons key rest ih =>
    obtain ⟨hkey, hrest⟩ := List.nodup_cons.mp hkeys
    rw [removeAllLocal, if_neg htags] at h
    -- the turn of `key` leads from `m` to some `m₁`, and the rest of the loop from there to `m'`
    have hturn : ∃ tag? m₁ versionTag err, tags[keyIndex]? = some tag? ∧
        (∀ k, k ≠ key → SameAt map m m₁ k) ∧ Decided map m m₁ key tag? ∧
        removeAllLocal map listener tags (keyIndex + 1) versionTag err m₁ rest =
          (.ok (.gf .noErr), m') := by
      cases htag : tags[keyIndex]? with
      | none =>
        rw [htag] at h
        cases h
      | some tag? =>
        rw [htag] at h
        cases tag? with
        | none => exact ⟨none, m, none, err, rfl, fun _ _ => ⟨rfl, rfl⟩, ⟨rfl, rfl⟩, h⟩
        | some t =>
          dsimp only at h
          rcases hdestroy : destroyNoThrow map listener m key (-1) (some t) with ⟨x | localErr, m₁⟩
          · rw [hdestroy] at h
            cases h
          · obtain ⟨hother, hfollows⟩ := destroyNoThrow_ok hdestroy
            rw [hdestroy] at h
            cases localErr with
            | cacheListenerException => exact ⟨some t, m₁, _, _, rfl, hother, hfollows, h⟩
            | gf code =>
              dsimp only at h
              split at h
              · exact ⟨some t, m₁, _, _, rfl, hother, hfollows, h⟩
              · next hne =>
                have hcode := Except.ok.inj (Prod.mk.inj h).1
                exact absurd (.inr (.inr hcode)) hne
            | _ =>
              cases h
    obtain ⟨tag?, m₁, versionTag, err, htag, hother, hdecided, hloop⟩ := hturn
    obtain ⟨hkeep, hdecide⟩ := ih hrest hloop
    refine ⟨?_, ?_⟩
    · intro k hk
      obtain ⟨hne, hnotin⟩ := not_or.mp (mt List.mem_cons.mpr hk)
      exact (hother k hne).trans (hkeep k hnotin)
    · intro i k hi
      cases i with
      | zero =>
        obtain rfl : key = k := Option.some.inj hi
        refine ⟨tag?, htag, ?_⟩
        -- the rest of the loop does not come back to `key`
        have hsame := hkeep key hkey
        cases tag? with
        | none => exact SameAt.trans hdecided hsame
        | some t =>
          intro hnew
          rw [hsame.1]
          exact hdecided hnew
      | succ i =>
        obtain ⟨tag?, hget, hafter⟩ := hdecide i k hi
        have hne : k ≠ key := by
          rintro rfl
          exact hkey (List.mem_of_getElem? hi)
        refine ⟨tag?, by rw [← hget, Nat.add_assoc, Nat.add_comm 1 i], ?_⟩
        have hsame := hother k hne
        cases tag? with
        | none => exact hsame.trans hafter
        | some t =>
          exact fun hnew => hafter fun e hfind hen =>
            hnew e (hsame.1.symm.trans hfind) (hsame.2.symm.trans hen)

theorem removeAllLocal_noTags (keyIndex : Nat) (err : RegionErr) (m : S) (keys : List K) :
    removeAllLocal map listener [] keyIndex none err m keys = (.ok err, m) := by
  induction keys generalizing keyIndex with
  | nil => rfl
  | cons key rest ih =>
    exact ih (keyIndex + 1)

/-! ### The whole call -/

variable (map listener)

/-- The local cache follows the reply whenever `removeAllNoThrow` returns `GF_NOERR`. -/
def Reflected (r : LocalRegion S) (keys : List K) (reply : MultiHopReply K) : Prop :=
  ∀ m', removeAllNoThrow map listener r keys reply = (.ok (.gf .noErr), m') →
    (reply.tags = [] → ∀ k ∈ keys, ¬ Live (map.find m' k)) ∧
    (reply.tags ≠ [] → ∀ (i : Nat) k, keys[i]? = some k →
      (reply.tags[i]? = some none → map.find m' k = map.find r.entries k) ∧
      ∀ t, reply.tags[i]? = some (some t) → Newer map r.entries k t → ¬ Live (map.find m' k))

/-- The keys that the reply wants to be gone. -/
def Removes (r : LocalRegion S) (keys : List K) (reply : MultiHopReply K) (k : K) : Prop :=
  (reply.tags = [] ∧ k ∈ keys) ∨
    ∃ (i : Nat) (t : VersionTag), keys[i]? = some k ∧ reply.tags[i]? = some (some t) ∧
      Newer map r.entries k t

/-- When the local cache follows the reply: the server has not done its part, or the reply has tags
and the loop goes over the keys of the request, or it goes over a null pointer, or there is nothing
to remove. -/
def ReflectsReply (r : LocalRegion S) (keys : List K) (reply : MultiHopReply K) : Prop :=
  ¬ reply.Succeeds ∨
    (reply.tags ≠ [] ∧ (r.isPRSingleHopEnabled = false ∨ reply.keys = keys)) ∨
    (r.isPRSingleHopEnabled = true ∧ reply.hasObject = false) ∨
    ∀ k, Removes map r keys reply k → ¬ Live (map.find r.entries k)

/-- The vector that the loop goes over, as a pointer. -/
def keysPtr (r : LocalRegion S) (keys : List K) (reply : MultiHopReply K) : Option (List K) :=
  if r.isPRSingleHopEnabled then (if reply.hasObject then some reply.keys else none) else some keys

variable {r : LocalRegion S} {keys : List K} {reply : MultiHopReply K}

theorem removeAllNoThrow_ok (hcaching : r.cachingEnabled = true) (h : reply.Succeeds) :
    removeAllNoThrow map listener r keys reply =
      (keysPtr r keys reply).elim (.error (.undefined .nullPointer), r.entries)
        (removeAllLocal map listener reply.tags 0 none (.gf .noErr) r.entries) := by
  obtain ⟨list, hlist, htags, htemp⟩ := multiHop_ok gfNotObj h
  unfold removeAllNoThrow multiHopRemoveAllNoThrowRemote
  rw [hlist]
  dsimp only
  rw [if_pos hcaching, htags, htemp, ← keysPtr]
  cases keysPtr r keys reply <;> rfl

theorem removeAllNoThrow_fails (h : ¬ reply.Succeeds) (m' : S) :
    removeAllNoThrow map listener r keys reply ≠ (.ok (.gf .noErr), m') := by
  intro hok
  unfold removeAllNoThrow at hok
  have hfails := multiHop_fails gfNotObj h
  rcases hlist : multiHopRemoveAllNoThrowRemote reply with x | ⟨err, list⟩
  · rw [hlist] at hok
    cases hok
  · rw [hlist] at hok
    dsimp only at hok
    by_cases herr : err = .gf .noErr
    · rw [herr] at hlist
      exact hfails list hlist
    · rw [if_pos herr] at hok
      exact herr (Except.ok.inj (Prod.mk.inj hok).1)

omit [DecidableEq K] in
theorem hasObject_of_tags (h : reply.tags ≠ []) : reply.hasObject = true := by
  obtain ⟨tag, htag⟩ := List.exists_mem_of_ne_nil _ h
  obtain ⟨chunk, hchunk, hin⟩ := List.mem_flatMap.mp htag
  refine List.any_eq_true.mpr ⟨chunk, hchunk, ?_⟩
  cases chunk with
  | object part => rfl
  | nullObject => cases hin
  | bytes => cases hin

/-- With tags, and a loop over the keys of the request, the local cache follows the reply. -/
theorem reflected_of_tags (hcaching : r.cachingEnabled = true) (hkeys : keys.Nodup)
    (hsucceeds : reply.Succeeds) (htags : reply.tags ≠ [])
    (hloop : r.isPRSingleHopEnabled = false ∨ reply.keys = keys) :
    Reflected map listener r keys reply := by
  have hptr : keysPtr r keys reply = some keys := by
    unfold keysPtr
    rw [if_pos (hasObject_of_tags htags)]
    obtain hflag | hsame := hloop
    · rw [if_neg (Bool.eq_false_iff.mp hflag)]
    · rw [hsame, ite_self]
  intro m' hm'
  rw [removeAllNoThrow_ok map listener hcaching hsucceeds, hptr] at hm'
  obtain ⟨-, hdecided⟩ := removeAllLocal_ok htags hkeys hm'
  refine ⟨fun h => absurd h htags, fun _ i k hi => ?_⟩
  obtain ⟨tag?, hget, hafter⟩ := hdecided i k hi
  rw [Nat.zero_add] at hget
  refine ⟨fun hnull => ?_, fun t ht hnew => ?_⟩
  · cases hget.symm.trans hnull
    exact hafter.1
  · cases hget.symm.trans ht
    exact hafter hnew

/-- A call that removes nothing and returns `GF_NOERR` follows the reply exactly when nothing is to
be removed. -/
theorem reflected_of_unchanged
    (h : removeAllNoThrow map listener r keys reply = (.ok (.gf .noErr), r.entries)) :
    Reflected map listener r keys reply ↔
      ∀ k, Removes map r keys reply k → ¬ Live (map.find r.entries k) := by
  constructor
  · intro hreflected k hk
    obtain ⟨hnone, hsome⟩ := hreflected r.entries h
    obtain ⟨htags, hmem⟩ | ⟨i, t, hi, ht, hnew⟩ := hk
    · exact hnone htags k hmem
    · refine (hsome ?_ i k hi).2 t ht hnew
      rintro htags
      rw [htags] at ht
      cases ht
  · intro hgone m' hm'
    obtain rfl := (Prod.mk.inj (h.symm.trans hm')).2
    exact ⟨fun htags k hk => hgone k (.inl ⟨htags, hk⟩),
      fun _ i k hi => ⟨fun _ => rfl, fun t ht hnew => hgone k (.inr ⟨i, t, hi, ht, hnew⟩)⟩⟩

/-- A bulk removal on a caching region is reflected in the local cache exactly under
`ReflectsReply`. The reply repeats the keys of the request or has none. Its tags can be any: when
there are too few the call does not return. -/
theorem removeAllNoThrow_reflected_iff (hcaching : r.cachingEnabled = true) (hkeys : keys.Nodup)
    (hreply : reply.keys = [] ∨ reply.keys = keys) :
    Reflected map listener r keys reply ↔ ReflectsReply map r keys reply := by
  by_cases hsucceeds : reply.Succeeds
  · by_cases hcovers : reply.tags ≠ [] ∧ (r.isPRSingleHopEnabled = false ∨ reply.keys = keys)
    · refine iff_of_true ?_ (.inr (.inl hcovers))
      exact reflected_of_tags map listener hcaching hkeys hsucceeds hcovers.1 hcovers.2
    · cases hptr : keysPtr r keys reply with
      | none =>
        have hnull : r.isPRSingleHopEnabled = true ∧ reply.hasObject = false := by
          unfold keysPtr at hptr
          split at hptr
          · next hflag =>
            split at hptr
            · cases hptr
            · next hobject => exact ⟨hflag, Bool.eq_false_iff.mpr hobject⟩
          · cases hptr
        refine iff_of_true ?_ (.inr (.inr (.inl hnull)))
        intro m' hm'
        rw [removeAllNoThrow_ok map listener hcaching hsucceeds, hptr] at hm'
        cases hm'
      | some looped =>
        have hunchanged : removeAllNoThrow map listener r keys reply =
            (.ok (.gf .noErr), r.entries) := by
          rw [removeAllNoThrow_ok map listener hcaching hsucceeds, hptr]
          by_cases htags : reply.tags = []
          · rw [htags]
            exact removeAllLocal_noTags 0 _ r.entries looped
          · -- the loop goes over the succeeded keys, and the reply has none
            have hloop := not_or.mp (not_and.mp hcovers htags)
            have hflag : r.isPRSingleHopEnabled = true := Bool.eq_true_of_not_eq_false hloop.1
            have hnone : reply.keys = [] := hreply.resolve_right hloop.2
            unfold keysPtr at hptr
            rw [if_pos hflag, if_pos (hasObject_of_tags htags), hnone] at hptr
            cases hptr
            rfl
        rw [reflected_of_unchanged map listener hunchanged]
        have hobject : ¬ (r.isPRSingleHopEnabled = true ∧ reply.hasObject = false) := by
          rintro ⟨hflag, hobject⟩
          unfold keysPtr at hptr
          rw [if_pos hflag, if_neg (Bool.eq_false_iff.mp hobject)] at hptr
          cases hptr
        unfold ReflectsReply
        rw [or_iff_right (not_not.mpr hsucceeds), or_iff_right hcovers, or_iff_right hobject]
  · refine iff_of_true ?_ (.inl hsucceeds)
    exact fun m' hm' => absurd hm' (removeAllNoThrow_fails map listener hsucceeds m')

end Local

/-! ### Two runs -/

local instance neZero_one : NeZero 1 := ⟨Nat.one_ne_zero⟩

/-- A region over numbers that has the value 5 at the key 1. -/
def oneEntry (concurrencyChecksEnabled : Bool) : LocalRegion (ConcurrentEntriesMap Nat Nat 1) where
  cachingEnabled := true
  isPRSingleHopEnabled := false
  entries := ((ConcurrentEntriesMap.open (fun _ => 0) 0 concurrencyChecksEnabled).put
    MapSegment.natRegion 1 (.object 5) (-1) 0 none none).2

/-- A tag of the first version of an entry. -/
def firstTag : VersionTag where
  entryVersion := 1
  regionVersionHighBytes := 0
  regionVersionLowBytes := 1
  internalMemID := 1
  previousMemID := 0

/-- The region with the value 6 at the key 2 too. -/
def twoKeys : LocalRegion (ConcurrentEntriesMap Nat Nat 1) :=
  { oneEntry true with
    entries := ((oneEntry true).entries.put MapSegment.natRegion 2 (.object 6) (-1) 0 none none).2 }

/-- A tag for the first key and a null tag for the second one, which the server did not have. The
call returns `GF_NOERR`. The first key is removed, and the second one stays. -/
theorem removeAllNoThrow_reflected_iff_nullTag :
    let result := removeAllNoThrow (concurrentMap MapSegment.natRegion) (fun _ _ => false) twoKeys
      [1, 2] ⟨none, .response, [.object ⟨none, some [some firstTag, none]⟩]⟩
    result.1 = .ok (.gf .noErr) ∧
      (result.2.find 1).map (·.obj.value) = some (.token .tombstone) ∧
      (result.2.find 2).map (·.obj.value) = some (.object 6) ∧
      Reflected (concurrentMap MapSegment.natRegion) (fun _ _ => false) twoKeys [1, 2]
        ⟨none, .response, [.object ⟨none, some [some firstTag, none]⟩]⟩ :=
  ⟨rfl, rfl, rfl, (removeAllNoThrow_reflected_iff _ _ rfl (by decide) (.inl rfl)).mpr
    (.inr (.inl ⟨nofun, .inl rfl⟩))⟩

/-- Without concurrency checks the server sends no tags. The call returns `GF_NOERR`, and the key
stays in the local cache. -/
theorem removeAllNoThrow_keeps_untagged :
    ¬ Reflected (concurrentMap MapSegment.natRegion) (fun _ _ => false) (oneEntry false) [1]
      ⟨none, .reply, [.nullObject]⟩ := by
  intro h
  refine (h (oneEntry false).entries rfl).1 rfl 1 (List.mem_singleton.mpr rfl) ⟨_, rfl, ?_⟩
  exact MapSegment.liveValue_object 5

end GeodeNative.Region
