import GeodeNative.Lib.LastWriter
import GeodeNative.Proofs.Cache.Segment
import GeodeNative.Proofs.Cache.VersionStamp

/-!
# Versioned updates converge

Servers send the updates of a key with version tags, and a client can see them in any order.
This module takes the puts and the removes of one key `k` on a segment with concurrency
checks that does not hold `k`.

`checkForConflict_setVersions` computes the version check between the stamp of one update and
the tag of another, for versions of 24 bits that are close to each other. `applyEvent_tracks`
uses it: one event acts on the binding of `k` as `keepGreatest` acts on a register. By the
simulation rule a list of events leaves the greatest one (`run_applyEvent`), and
`versionedUpdates_converge` states that the order of the events does not matter.
-/

set_option autoImplicit false

namespace GeodeNative.Proofs.Cache

open GeodeNative.Cache Lib
open GeodeNative.Cache.MapSegment (natRegion)

/-- One versioned event on a key: `put(k, value, tag)`, or `remove(k, tag)` after a remote
destroy. -/
inductive VersionedEvent (V : Type) where
  | put (value : CacheablePtr V) (updateCount destroyTracker : Int) (tag : VersionTag)
  | remove (updateCount : Int) (tag : VersionTag)
  deriving DecidableEq

namespace VersionedEvent

variable {V : Type}

/-- The version tag of the event. -/
def tag : VersionedEvent V → VersionTag
  | put _ _ _ tag => tag
  | remove _ tag => tag

/-- The value that the event binds. -/
def value : VersionedEvent V → CacheablePtr V
  | put value _ _ _ => value
  | remove _ _ => .token .tombstone

end VersionedEvent

section
variable {K V D M : Type} [DecidableEq K]

/-- The segment after one event on `k`. -/
def applyEvent (region : RegionInternal K V D M) (k : K) (s : MapSegment K V) :
    VersionedEvent V → MapSegment K V
  | .put value updateCount destroyTracker tag =>
    (s.put region k value updateCount destroyTracker (some tag) none).2
  | .remove updateCount tag => (s.remove region k updateCount (some tag) true).2

/-- The bound value of `k` and the version stamp of its entry. -/
def valueAndStamp (s : MapSegment K V) (k : K) : Option (CacheablePtr V × VersionStamp) :=
  (s.find k).map fun e => (e.obj.value, e.obj.stamp)

/-- `compareTo` orders the members totally. -/
structure MemberOrder (compareTo : M → M → Int) : Prop where
  eq_zero_iff : ∀ a b, compareTo a b = 0 ↔ a = b
  neg_iff : ∀ a b, compareTo a b < 0 ↔ 0 < compareTo b a
  trans : ∀ a b c, compareTo a b < 0 → compareTo b c < 0 → compareTo a c < 0

/-- The version of `a` is at most the version of `b`: by the entry version, and between equal
entry versions by the member. -/
def Older (members : MemberList M) (a b : VersionTag) : Prop :=
  a.entryVersion.toNat < b.entryVersion.toNat ∨
    a.entryVersion = b.entryVersion ∧ ∃ m₁ m₂, members.getDSMember a.internalMemID = some m₁ ∧
      members.getDSMember b.internalMemID = some m₂ ∧ members.compareTo m₁ m₂ ≤ 0

/-- The assumptions on the events `es` of a key:

- `versions`: the entry versions are in `1 .. 2^24 - 1`;
- `close`: any two entry versions differ by at most `0x10000`;
- `registered`: the members are in the member list;
- `distinct`: no two events have the same entry version and member. -/
structure EventHypotheses (members : MemberList M) (es : List (VersionedEvent V)) : Prop where
  versions : ∀ e ∈ es, 1 ≤ e.tag.entryVersion.toNat ∧ e.tag.entryVersion.toNat < 2 ^ 24
  close : ∀ a ∈ es, ∀ b ∈ es, a.tag.entryVersion.toNat ≤ b.tag.entryVersion.toNat + 0x10000
  registered : ∀ e ∈ es, ∃ m, members.getDSMember e.tag.internalMemID = some m
  distinct : (es.map fun e =>
    (e.tag.entryVersion, members.getDSMember e.tag.internalMemID)).Nodup

/-! ### The version check -/

theorem checkForConflict_setVersions (members : MemberList M) (a b : VersionTag)
    (ha : 1 ≤ a.entryVersion.toNat ∧ a.entryVersion.toNat < 2 ^ 24) (hb : 1 ≤ b.entryVersion.toNat)
    (hab : a.entryVersion.toNat ≤ b.entryVersion.toNat + 0x10000)
    (hba : b.entryVersion.toNat ≤ a.entryVersion.toNat + 0x10000) :
    (VersionStamp.setVersions a).checkForConflict members b false ≠ .noErr ↔
      ¬ Older members a b := by
  have hbv : ¬ b.IsZero := by
    rintro ⟨h, -⟩
    simp [h] at hb
  have hstamp := VersionStamp.toNat_getEntryVersion_setVersions a
  rw [Nat.mod_eq_of_lt ha.2] at hstamp
  have hmember : (VersionStamp.setVersions a).getMemberId = a.internalMemID := rfl
  rw [VersionStamp.conflict_iff members _ b hbv, VersionStamp.Behind, hstamp, hmember]
  constructor
  · rintro ⟨-, h | ⟨h, -⟩ | ⟨h, hmembers⟩⟩ (hlt | ⟨hsame, n₁, n₂, hn₁, hn₂, hle⟩)
    · omega
    · omega
    · omega
    · rw [hsame] at h
      omega
    · omega
    · have := hmembers n₁ n₂ hn₁ hn₂
      omega
  · intro hnot
    have hge : ¬ a.entryVersion.toNat < b.entryVersion.toNat := fun h => hnot (.inl h)
    refine ⟨by omega, .inr ?_⟩
    by_cases heq : b.entryVersion.toNat = a.entryVersion.toNat
    · -- equal entry versions: the members decide
      refine .inr ⟨heq, fun n₁ n₂ hn₁ hn₂ => ?_⟩
      by_contra hle
      exact hnot (.inr ⟨BitVec.eq_of_toNat_eq heq.symm, n₁, n₂, hn₁, hn₂, by omega⟩)
    · exact .inl ⟨by omega, hab⟩

variable {es : List (VersionedEvent V)}

theorem older_totalOn {members : MemberList M} (horder : MemberOrder members.compareTo)
    (hes : EventHypotheses members es) :
    TotalOn (fun a b : VersionedEvent V => Older members a.tag b.tag) (· ∈ es) where
  refl a ha := by
    obtain ⟨m, hm⟩ := hes.registered a ha
    exact .inr ⟨rfl, m, m, hm, hm, ((horder.eq_zero_iff m m).mpr rfl).le⟩
  trans a b c _ _ _ hab hbc := by
    rcases hab with hab | ⟨hab, m₁, m₂, hm₁, hm₂, h₁₂⟩
    · rcases hbc with hbc | ⟨hbc, -⟩
      · exact .inl (hab.trans hbc)
      · exact .inl (hbc ▸ hab)
    · rcases hbc with hbc | ⟨hbc, n₂, m₃, hn₂, hm₃, h₂₃⟩
      · exact .inl (hab ▸ hbc)
      · rw [hm₂] at hn₂
        cases hn₂
        refine .inr ⟨hab.trans hbc, m₁, m₃, hm₁, hm₃, ?_⟩
        rcases h₁₂.lt_or_eq with h₁₂ | h₁₂
        · rcases h₂₃.lt_or_eq with h₂₃ | h₂₃
          · exact (horder.trans m₁ m₂ m₃ h₁₂ h₂₃).le
          · rw [← (horder.eq_zero_iff m₂ m₃).mp h₂₃]
            exact h₁₂.le
        · rw [(horder.eq_zero_iff m₁ m₂).mp h₁₂]
          exact h₂₃
  total a b ha hb := by
    obtain ⟨m₁, hm₁⟩ := hes.registered a ha
    obtain ⟨m₂, hm₂⟩ := hes.registered b hb
    rcases Nat.lt_trichotomy a.tag.entryVersion.toNat b.tag.entryVersion.toNat with h | h | h
    · exact .inl (.inl h)
    · have hsame : a.tag.entryVersion = b.tag.entryVersion := BitVec.eq_of_toNat_eq h
      by_cases hle : members.compareTo m₁ m₂ ≤ 0
      · exact .inl (.inr ⟨hsame, m₁, m₂, hm₁, hm₂, hle⟩)
      · have hlt : members.compareTo m₂ m₁ < 0 := (horder.neg_iff m₂ m₁).mpr (by omega)
        exact .inr (.inr ⟨hsame.symm, m₂, m₁, hm₂, hm₁, hlt.le⟩)
    · exact .inr (.inl h)
  antisymm a b ha hb hab hba := by
    have hpair : (a.tag.entryVersion, members.getDSMember a.tag.internalMemID) =
        (b.tag.entryVersion, members.getDSMember b.tag.internalMemID) := by
      rcases hab with hab | ⟨hab, m₁, m₂, hm₁, hm₂, h₁₂⟩
      · rcases hba with hba | ⟨hba, -⟩
        · omega
        · rw [hba] at hab
          omega
      · rcases hba with hba | ⟨-, n₂, n₁, hn₂, hn₁, h₂₁⟩
        · rw [hab] at hba
          omega
        · rw [hm₁] at hn₁
          rw [hm₂] at hn₂
          cases hn₁
          cases hn₂
          have hzero : members.compareTo m₁ m₂ = 0 := by
            have := (horder.neg_iff m₁ m₂).not
            omega
          rw [hab, hm₁, hm₂, (horder.eq_zero_iff m₁ m₂).mp hzero]
    exact List.inj_on_of_nodup_map hes.distinct ha hb hpair

/-! ### One event -/

/-- `k` is bound to an entry with the given value and stamp, in a segment with checks. -/
def Binds (k : K) (v : CacheablePtr V) (stamp : VersionStamp) (s : MapSegment K V) : Prop :=
  s.concurrencyChecksEnabled = true ∧ ∃ o, s.find k = some (.impl o) ∧ o.weakThis = true ∧
    o.key = some k ∧ o.value = v ∧ o.stamp = stamp

variable (region : RegionInternal K V D M)

omit [DecidableEq K] in
theorem checkVersion_some (s : MapSegment K V) (hen : s.concurrencyChecksEnabled = true)
    (o : MapEntryImpl K V) (t : VersionTag) :
    s.checkVersion region (.impl o) (some t) false =
      if o.stamp.checkForConflict region.members t false ≠ .noErr then
        .error (o.stamp.checkForConflict region.members t false)
      else .ok (.setVersions t) := by
  simp only [MapSegment.checkVersion, hen, if_true, VersionStamp.processVersionTag,
    MapEntry.getVersionStamp, MapEntry.obj]
  rfl

section Event
variable (region : RegionInternal K V D M) (k : K) (s : MapSegment K V)
  (hen : s.concurrencyChecksEnabled = true)
include hen

variable {s' : MapSegment K V} {o : MapEntryImpl K V}

theorem binds_setsAt (h : MapSegment.SetsAt k (some (.impl o)) s s') (hweak : o.weakThis = true)
    (hkey : o.key = some k) : Binds k o.value o.stamp s' :=
  ⟨h.flag.trans hen, o, h.find_self, hweak, hkey, rfl, rfl⟩

theorem binds_newEntry {s₁ : MapSegment K V} (hen₁ : s₁.concurrencyChecksEnabled = true)
    {v : CacheablePtr V} {t : VersionTag} {stamp : Option VersionStamp}
    (h : MapSegment.SetsAt k (some (.impl (s₁.newEntry k v (some t) stamp))) s s') :
    Binds k v (.setVersions t) s' := by
  have hbinds := binds_setsAt k s hen h (MapSegment.newEntry_weakThis ..)
    (MapSegment.newEntry_key ..)
  rwa [MapSegment.newEntry_value, MapSegment.newEntry_stamp _ _ _ _ hen₁] at hbinds

/-- An event binds its value and its stamp, when `k` is unbound or the version check passes.
Otherwise it leaves the binding of `k`. -/
theorem applyEvent_cases (hhealthy : ∀ e, s.find k = some e → MapSegment.Healthy k e)
    (e : VersionedEvent V) :
    (Binds k e.value (.setVersions e.tag) (applyEvent region k s e) ∧
      (s.find k = none ∨ ∃ o stamp, s.find k = some (.impl o) ∧
        s.checkVersion region (.impl o) (some e.tag) false = .ok stamp)) ∨
    ((applyEvent region k s e).concurrencyChecksEnabled = true ∧
      (applyEvent region k s e).find k = s.find k ∧ ∃ o err, s.find k = some (.impl o) ∧
        s.checkVersion region (.impl o) (some e.tag) false = .error err) := by
  have hen' : s.rehashIfNeeded.concurrencyChecksEnabled = true := by simpa using hen
  have hstamp : ∀ {o : MapEntryImpl K V} {t : VersionTag} {stamp : VersionStamp},
      s.checkVersion region (.impl o) (some t) false = .ok stamp → stamp = .setVersions t := by
    intro o t stamp h
    rw [checkVersion_some region s hen] at h
    split at h
    · cases h
    · cases h
      rfl
  cases e with
  | put v updateCount destroyTracker t =>
    simp only [applyEvent, VersionedEvent.value, VersionedEvent.tag]
    rcases MapSegment.put_cases region s k v updateCount destroyTracker (some t) hen hhealthy
        none with ⟨err, -, ⟨-, h⟩ | ⟨o, hfind, hcheck⟩, heq⟩ | ⟨hfind, -, me, heq⟩ |
        ⟨o, stamp, me, hfind, -, hcheck, heq⟩ | ⟨o, stamp, hfind, hweak, hkey, -, -, hcheck, heq⟩ |
        ⟨o, -, -, -, -, herr, -⟩
    · cases h
    · rw [heq]
      exact .inr ⟨hen', by simp, o, err, hfind, hcheck⟩
    · rw [heq]
      exact .inl ⟨binds_newEntry k _ hen' hen' (.bindNew ..), .inl hfind⟩
    · rw [heq]
      have hen'' := (MapSegment.flag_withoutCancelTask s.rehashIfNeeded k).trans hen'
      exact .inl ⟨binds_newEntry k _ hen' hen'' (.replaceTombstone ..),
        .inr ⟨o, stamp, hfind, hcheck⟩⟩
    · rw [heq]
      refine .inl ⟨?_, .inr ⟨o, stamp, hfind, hcheck⟩⟩
      rw [← hstamp hcheck]
      exact binds_setsAt k _ hen' (.writeInPlace _ k (o.setValueI v) stamp) hweak hkey
    · exact absurd rfl herr
  | remove updateCount t =>
    simp only [applyEvent, VersionedEvent.value, VersionedEvent.tag]
    rcases MapSegment.remove_cases region s k updateCount (some t) hen hhealthy true with
        ⟨o, err, hfind, hcheck, -, heq⟩ | ⟨o, stamp, me, old, hfind, hweak, hkey, hcheck, heq⟩ |
        ⟨t', hfind, ht, heq⟩ | ⟨-, h, -⟩
    · rw [heq]
      exact .inr ⟨hen, rfl, o, err, hfind, hcheck⟩
    · rw [heq]
      refine .inl ⟨?_, .inr ⟨o, stamp, hfind, hcheck⟩⟩
      rw [← hstamp hcheck]
      exact binds_setsAt k s hen (.buryInPlace s k o stamp) hweak hkey
    · cases ht
      rw [heq]
      exact .inl ⟨binds_newEntry k s hen hen (.buryNew s k t), .inl hfind⟩
    · cases h

end Event

/-- The binding of `k` holds what the register `held` holds. -/
def Tracks (k : K) (es : List (VersionedEvent V)) (s : MapSegment K V)
    (held : Option (VersionedEvent V)) : Prop :=
  match held with
  | none => s.concurrencyChecksEnabled = true ∧ s.find k = none
  | some e => e ∈ es ∧ Binds k e.value (.setVersions e.tag) s

open scoped Classical in
/-- One event acts on the binding of `k` as on a register that keeps the greatest event. -/
theorem applyEvent_tracks (k : K) (hes : EventHypotheses region.members es) (s : MapSegment K V)
    (held : Option (VersionedEvent V)) (e : VersionedEvent V) (htracks : Tracks k es s held)
    (he : e ∈ es) :
    Tracks k es (applyEvent region k s e)
      (keepGreatest (fun a b => Older region.members a.tag b.tag) held e) := by
  cases held with
  | none =>
    obtain ⟨hen, hfind⟩ := htracks
    rcases applyEvent_cases region k s hen (by simp [hfind]) e with ⟨hbinds, -⟩ |
      ⟨-, -, o, err, h, -⟩
    · exact ⟨he, hbinds⟩
    · rw [hfind] at h
      cases h
  | some b =>
    obtain ⟨hb, hen, o, hfind, hweak, hkey, hvalue, hstamp⟩ := htracks
    have hhealthy : ∀ e, s.find k = some e → MapSegment.Healthy k e := by
      intro e' h
      rw [hfind] at h
      cases h
      exact ⟨o, rfl, hweak, hkey⟩
    have hcheck := checkVersion_some region s hen o e.tag
    rw [hstamp] at hcheck
    have hconflict := checkForConflict_setVersions region.members b.tag e.tag
      (hes.versions b hb) (hes.versions e he).1 (hes.close b hb e he) (hes.close e he b hb)
    rcases applyEvent_cases region k s hen hhealthy e with
      ⟨hbinds, hnone | ⟨o', stamp, hfind', hok⟩⟩ | ⟨hen', hsame, o', err, hfind', herr⟩
    · rw [hfind] at hnone
      cases hnone
    · rw [hfind] at hfind'
      cases hfind'
      rw [hcheck] at hok
      have holder : Older region.members b.tag e.tag := by
        by_contra h
        rw [if_pos (hconflict.mpr h)] at hok
        cases hok
      simp only [keepGreatest, if_pos holder]
      exact ⟨he, hbinds⟩
    · rw [hfind] at hfind'
      cases hfind'
      rw [hcheck] at herr
      have hnot : ¬ Older region.members b.tag e.tag := by
        intro h
        rw [if_neg fun hne => hconflict.mp hne h] at herr
        cases herr
      simp only [keepGreatest, if_neg hnot]
      exact ⟨hb, hen', o, by rw [hsame, hfind], hweak, hkey, hvalue, hstamp⟩

/-! ### All events -/

/-- After the events, in any order and with any repetitions, `k` is bound to the value and the
stamp of the greatest event. -/
theorem run_applyEvent (horder : MemberOrder region.members.compareTo) (s : MapSegment K V)
    (hen : s.concurrencyChecksEnabled = true) (k : K) (hk : s.find k = none)
    (hes : EventHypotheses region.members es) (hne : es ≠ []) {l : List (VersionedEvent V)}
    (hl : ∀ a, a ∈ l ↔ a ∈ es) :
    ∃ e, IsGreatestOf (fun a b : VersionedEvent V => Older region.members a.tag b.tag) e l ∧
      valueAndStamp (run (applyEvent region k) s l) k =
        some (e.value, .setVersions e.tag) := by
  classical
  have hmem : ∀ a ∈ l, a ∈ es := fun a => (hl a).mp
  have hlne : l ≠ [] := by
    obtain ⟨a, ha⟩ := List.exists_mem_of_ne_nil es hne
    exact List.ne_nil_of_mem ((hl a).mpr ha)
  have hsim : Tracks k es (run (applyEvent region k) s l)
      (run (keepGreatest fun a b => Older region.members a.tag b.tag) none l) :=
    run_simulates (applyEvent_tracks region k hes) hmem ⟨hen, hk⟩
  obtain ⟨e, hrun, hgreatest⟩ := run_keepGreatest (older_totalOn horder hes) l hlne hmem
  rw [hrun] at hsim
  obtain ⟨-, -, o, hfind, -, -, hvalue, hstamp⟩ := hsim
  refine ⟨e, hgreatest, ?_⟩
  rw [valueAndStamp, hfind]
  simp [MapEntry.obj, hvalue, hstamp]

/-- A put, a remove and a put with the same entry version by a greater member. -/
def threeEvents : List (VersionedEvent Nat) :=
  [.put (.object 7) (-1) 0 ⟨5, 0, 1, 1, 0⟩, .remove (-1) ⟨6, 0, 2, 1, 0⟩,
    .put (.object 8) (-1) 0 ⟨6, 0, 3, 2, 0⟩]

theorem natRegion_memberOrder : MemberOrder natRegion.members.compareTo where
  eq_zero_iff a b := by
    simp only [natRegion]
    omega
  neg_iff a b := by
    simp only [natRegion]
    omega
  trans a b c := by
    simp only [natRegion]
    omega

theorem threeEvents_hypotheses : EventHypotheses natRegion.members threeEvents where
  versions := by decide
  close := by decide
  registered e _ := ⟨_, rfl⟩
  distinct := by decide

end

end GeodeNative.Proofs.Cache
