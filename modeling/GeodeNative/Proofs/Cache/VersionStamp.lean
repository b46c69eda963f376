import GeodeNative.Cache.VersionStamp

/-!
# What the version check accepts

`VersionStamp::checkForConflict` compares the 24 bits of a stamp with the 32 bits of a tag, after a
correction for wraparound that adds `2^32`. This module computes what comes out of it:

* `conflict_iff`: the tags that a stamp refuses, as a condition on the two versions and the members
  (`Behind`), and `refused_iff`, the same for every value of `deltaCheck`;
* `refusesOlder_iff`: when the stamp of a tag refuses every older tag;
* `serialOrder_iff`: where the check agrees with the comparison of serial numbers of 24 bits. A
  stamp whose version is 0 accepts every tag, also the ones from before the wraparound;
* `deltaAcceptance_iff`: where a delta is accepted exactly when its version is the next one. The
  correction adds `2^32` to the version that follows `2^24 - 1`, so that one is never accepted.
-/

set_option autoImplicit false

namespace GeodeNative.Cache

namespace VersionTag

/-- The tag that stands for "no version". -/
def IsZero (t : VersionTag) : Prop :=
  t.entryVersion = 0 ∧ t.regionVersionHighBytes = 0 ∧ t.regionVersionLowBytes = 0 ∧
    t.internalMemID = 0

instance (t : VersionTag) : Decidable t.IsZero :=
  inferInstanceAs (Decidable (_ ∧ _))

/-- `a` is older than `b`: its entry version is smaller, or they are equal and its member compares
below the member of `b`. -/
def Precedes {M : Type} (members : MemberList M) (a b : VersionTag) : Prop :=
  a.entryVersion.toNat < b.entryVersion.toNat ∨
    a.entryVersion = b.entryVersion ∧ ∃ m m', members.getDSMember b.internalMemID = some m ∧
      members.getDSMember a.internalMemID = some m' ∧ 0 < members.compareTo m m'

end VersionTag

namespace VersionStamp

/-- The stamp of an entry that was never versioned. -/
def IsZero (s : VersionStamp) : Prop :=
  s.getEntryVersion = 0 ∧ s.getRegionVersion = 0 ∧ s.getMemberId = 0
  deriving Decidable

/-- The stamp has the low 24 bits of the entry version, the region version and the member. -/
structure Carries (stamp : VersionStamp) (tag : VersionTag) : Prop where
  entryVersion : stamp.getEntryVersion.toNat = tag.entryVersion.toNat % 2 ^ 24
  regionVersion : stamp.getRegionVersion =
    (tag.regionVersionHighBytes.setWidth 64 <<< 32) ||| tag.regionVersionLowBytes.setWidth 64
  member : stamp.getMemberId = tag.internalMemID

/-- The bits of the two fields, put together again. -/
theorem toNat_getEntryVersion_setVersions (tag : VersionTag) :
    (setVersions tag).getEntryVersion.toNat = tag.entryVersion.toNat % 2 ^ 24 := by
  have hmask : ∀ i < 32, (0xffff#32).getLsbD i = decide (i < 16) ∧
      (0xff0000#32).getLsbD i = (decide (16 ≤ i) && decide (i < 24)) := by decide
  apply Nat.eq_of_testBit_eq
  intro i
  rw [Nat.testBit_mod_two_pow, ← BitVec.getLsbD, ← BitVec.getLsbD]
  simp only [setVersions, getEntryVersion, BitVec.getLsbD_or, BitVec.getLsbD_shiftLeft,
    BitVec.getLsbD_setWidth, BitVec.getLsbD_and, BitVec.getLsbD_ushiftRight]
  rcases Nat.lt_or_ge i 32 with hi | hi
  · rw [(hmask i hi).1]
    -- the low field holds the bits below 16, the high field the bits from 16 to 23
    rcases Nat.lt_or_ge i 16 with h16 | h16
    · have h24 : i < 24 := by omega
      simp [h16, hi, h24]
    · rw [show 16 + (i - 16) = i by omega, (hmask i hi).2]
      rcases Nat.lt_or_ge i 24 with h24 | h24
      · have h8 : i - 16 < 8 := by omega
        have h32 : i - 16 < 32 := by omega
        simp [hi, h24, h8, h32, h16, Nat.not_lt.mpr h16]
      · simp [Nat.not_lt.mpr h24, Nat.not_lt.mpr h16]
  · have h24 : ¬ i < 24 := by omega
    have h16 : ¬ i < 16 := by omega
    simp [h24, h16, Nat.not_lt.mpr hi]

theorem carries_setVersions (tag : VersionTag) : Carries (setVersions tag) tag :=
  ⟨toNat_getEntryVersion_setVersions tag, rfl, rfl⟩

section
variable {M : Type} (members : MemberList M) (stamp : VersionStamp) (tag : VersionTag)

/-- The version of the tag is behind the one of the stamp: by the wraparound rule, as a number, or
by the member. -/
def Behind : Prop :=
  let stampVersion := stamp.getEntryVersion.toNat
  let tagVersion := tag.entryVersion.toNat
  stampVersion + 0x10000 < tagVersion ∨
    (tagVersion < stampVersion ∧ stampVersion ≤ tagVersion + 0x10000) ∨
    (tagVersion = stampVersion ∧ ∀ m m', members.getDSMember stamp.getMemberId = some m →
      members.getDSMember tag.internalMemID = some m' → 0 < members.compareTo m m')

/-- Equal versions: the members decide, and an unknown member is an error. -/
theorem compareVersions_equal {v : Int} (hv : v ≠ 0) :
    compareVersions members stamp tag v v ≠ .noErr ↔
      ∀ m m', members.getDSMember stamp.getMemberId = some m →
        members.getDSMember tag.internalMemID = some m' → 0 < members.compareTo m m' := by
  have hor : ¬ (v = 0 ∨ v < v) := by omega
  rw [compareVersions, if_neg hor, if_neg (Int.lt_irrefl v)]
  cases hm : members.getDSMember stamp.getMemberId with
  | none => simp
  | some m =>
    cases hm' : members.getDSMember tag.internalMemID with
    | none => simp
    | some m' =>
      have hall : (∀ n n', some m = some n → some m' = some n' → 0 < members.compareTo n n') ↔
          0 < members.compareTo m m' := by
        constructor
        · intro h
          exact h m m' rfl rfl
        · intro h n n' hn hn'
          cases hn
          cases hn'
          exact h
      simp only [hall]
      by_cases hneg : members.compareTo m m' < 0
      · rw [if_pos hneg]
        exact iff_of_false (by simp) (by omega)
      · rw [if_neg hneg]
        by_cases hpos : members.compareTo m m' > 0
        · rw [if_pos hpos]
          exact iff_of_true (by simp) hpos
        · rw [if_neg hpos]
          exact iff_of_false (by simp) hpos

theorem rolloverVersions_of_close {a b : Nat} (hab : a ≤ b + 0x10000) (hba : b ≤ a + 0x10000) :
    rolloverVersions a b = ((a : Int), (b : Int)) := by
  unfold rolloverVersions
  split
  · have hnot : ¬ ((0x10000 : Int) < (b : Int) - a ∨ (b : Int) - a < -0x10000) := by omega
    rw [if_neg hnot]
  · rfl

/-- Different versions, after the wraparound step: the tag is refused when it is from before the
wraparound of the stamp, or smaller and not so far away that it counts as wrapped around itself. -/
theorem compareVersions_rollover {s t : Nat} (hs : s < 2 ^ 32) (ht : t < 2 ^ 32) (hne : s ≠ t) :
    compareVersions members stamp tag (rolloverVersions s t).1 (rolloverVersions s t).2 =
      if s ≠ 0 ∧ (s + 0x10000 < t ∨ t < s ∧ s ≤ t + 0x10000) then .cacheConcurrentModification
      else .noErr := by
  by_cases hzero : s = 0
  · simp [hzero, rolloverVersions, compareVersions]
  · rw [rolloverVersions, if_pos (by omega)]
    dsimp only
    split_ifs with hfar hneg hbehind hbehind hbehind
    · omega
    · rw [compareVersions, if_pos (by omega)]
    · rw [compareVersions, if_neg (by omega), if_pos (by omega)]
    · omega
    · rw [compareVersions, if_neg (by omega), if_pos (by omega)]
    · rw [compareVersions, if_pos (by omega)]

theorem compareVersions_iff (hstamp : stamp.getEntryVersion.toNat ≠ 0) :
    compareVersions members stamp tag
        (rolloverVersions stamp.getEntryVersion.toNat tag.entryVersion.toNat).1
        (rolloverVersions stamp.getEntryVersion.toNat tag.entryVersion.toNat).2 ≠ .noErr ↔
      Behind members stamp tag := by
  have hlt : tag.entryVersion.toNat < 2 ^ 32 := tag.entryVersion.isLt
  have hlt' : stamp.getEntryVersion.toNat < 2 ^ 32 := stamp.getEntryVersion.isLt
  unfold Behind
  generalize stamp.getEntryVersion.toNat = v at *
  generalize tag.entryVersion.toNat = v' at *
  by_cases heq : v = v'
  · subst heq
    rw [rolloverVersions_of_close (by omega) (by omega),
      compareVersions_equal members stamp tag (by omega)]
    constructor
    · intro h
      exact .inr (.inr ⟨rfl, h⟩)
    · rintro (h | h | ⟨-, h⟩)
      · omega
      · omega
      · exact h
  · rw [compareVersions_rollover members stamp tag hlt' hlt heq]
    split_ifs with hbehind
    · refine iff_of_true (by simp) ?_
      rcases hbehind.2 with h | h
      · exact .inl h
      · exact .inr (.inl h)
    · refine iff_of_false (by simp) ?_
      rintro (h | h | ⟨h, -⟩)
      · exact hbehind ⟨hstamp, .inl h⟩
      · exact hbehind ⟨hstamp, .inr h⟩
      · exact heq h.symm

theorem checkForConflict_of_stamp_isZero (hstamp : stamp.IsZero) (deltaCheck : Bool) :
    stamp.checkForConflict members tag deltaCheck = .noErr :=
  if_pos hstamp

theorem checkForConflict_eq (hstamp : ¬ stamp.IsZero) (htag : ¬ tag.IsZero) (deltaCheck : Bool) :
    stamp.checkForConflict members tag deltaCheck =
      let versions := rolloverVersions stamp.getEntryVersion.toNat tag.entryVersion.toNat
      let err := if deltaCheck then checkForDeltaConflict members stamp versions.1 versions.2 tag
        else .noErr
      if err ≠ .noErr then err else compareVersions members stamp tag versions.1 versions.2 := by
  rw [checkForConflict, if_neg (show ¬ (stamp.getEntryVersion = 0 ∧ _) from hstamp),
    if_neg (show ¬ (tag.entryVersion = 0 ∧ _) from htag)]

/-- The tags that a stamp refuses. A stamp without a version refuses none. -/
theorem conflict_iff (htag : ¬ tag.IsZero) :
    stamp.checkForConflict members tag false ≠ .noErr ↔
      stamp.getEntryVersion.toNat ≠ 0 ∧ Behind members stamp tag := by
  by_cases hzero : stamp.IsZero
  · have hversion : stamp.getEntryVersion.toNat = 0 := by rw [hzero.1]; rfl
    rw [checkForConflict_of_stamp_isZero members stamp tag hzero]
    exact iff_of_false (by simp) fun h => h.1 hversion
  · have hcheck := checkForConflict_eq members stamp tag hzero htag false
    simp only [Bool.false_eq_true, if_false, ne_eq, not_true_eq_false] at hcheck
    rw [hcheck]
    by_cases hstamp : stamp.getEntryVersion.toNat = 0
    · rw [hstamp]
      exact iff_of_false (by simp [rolloverVersions, compareVersions]) fun h => h.1 rfl
    · rw [and_iff_right hstamp, compareVersions_iff members stamp tag hstamp]

/-- The same with and without a delta, which only adds errors. -/
theorem refused_iff (htag : ¬ tag.IsZero) :
    (∀ deltaCheck, stamp.processVersionTag members (some tag) deltaCheck ≠ .noErr) ↔
      stamp.getEntryVersion.toNat ≠ 0 ∧ Behind members stamp tag := by
  rw [← conflict_iff members stamp tag htag]
  refine ⟨fun h => h false, fun h deltaCheck => ?_⟩
  have hzero : ¬ stamp.IsZero := fun hzero =>
    h (checkForConflict_of_stamp_isZero members stamp tag hzero false)
  rw [checkForConflict_eq members stamp tag hzero htag] at h
  rw [processVersionTag, checkForConflict_eq members stamp tag hzero htag]
  dsimp only
  split_ifs with hdelta hne hne
  · exact hne
  · exact h
  · exact hne
  · exact h

end

/-- Every older tag is refused. -/
def RefusesOlder {M : Type} (members : MemberList M) (stamp : VersionStamp) (tag : VersionTag) :
    Prop :=
  ∀ older, VersionTag.Precedes members older tag → ¬ older.IsZero →
    ∀ deltaCheck, stamp.processVersionTag members (some older) deltaCheck ≠ .noErr

/-- No older version is so far behind that it counts as wrapped around, and none is compared with a
version 0. -/
def Comparable {M : Type} (members : MemberList M) (tag : VersionTag) : Prop :=
  tag.entryVersion.toNat ≤ 0x10000 ∧
    (tag.entryVersion = 0 → ∀ id m m', members.getDSMember tag.internalMemID = some m →
      members.getDSMember id = some m' → ¬ 0 < members.compareTo m m')

section
variable {M : Type} {members : MemberList M} {stamp : VersionStamp} {tag : VersionTag}
  (hcarries : Carries stamp tag)
include hcarries

/-- A later tag finds an older version that its stamp accepts. -/
theorem not_refusesOlder_of_late (hlate : 0x10000 < tag.entryVersion.toNat) :
    ¬ RefusesOlder members stamp tag := by
  intro hrefuses
  have hstamp := hcarries.entryVersion
  -- below 2^24 a version that is too far behind; above, one that the cut version is behind
  obtain ⟨w, hw, hbehind⟩ : ∃ w < tag.entryVersion.toNat,
      stamp.getEntryVersion.toNat ≠ 0 → w + 0x10000 < stamp.getEntryVersion.toNat ∨
        w = stamp.getEntryVersion.toNat + 1 := by
    rcases Nat.lt_or_ge tag.entryVersion.toNat (2 ^ 24) with h24 | h24
    · refine ⟨tag.entryVersion.toNat - 0x10001, by omega, fun _ => .inl ?_⟩
      omega
    · exact ⟨stamp.getEntryVersion.toNat + 1, by omega, fun _ => .inr rfl⟩
  let older : VersionTag := ⟨BitVec.ofNat 32 w, 1, 0, 0, 0⟩
  have hversion : older.entryVersion.toNat = w := by
    show (BitVec.ofNat 32 w).toNat = w
    rw [BitVec.toNat_ofNat]
    omega
  have hnonzero : ¬ older.IsZero := fun h => absurd h.2.1 (show (1 : BitVec 16) ≠ 0 by decide)
  have hprecedes : VersionTag.Precedes members older tag := .inl (by omega)
  obtain ⟨hne, h⟩ := (refused_iff members stamp older hnonzero).mp
    (hrefuses older hprecedes hnonzero)
  rcases h with h | h | ⟨h, -⟩ <;> omega

/-- The stamp of a tag refuses every older tag exactly for the early versions. -/
theorem refusesOlder_iff : RefusesOlder members stamp tag ↔ Comparable members tag := by
  have hstamp := hcarries.entryVersion
  constructor
  · intro hrefuses
    have hearly : tag.entryVersion.toNat ≤ 0x10000 := by
      by_contra hlate
      exact not_refusesOlder_of_late hcarries (by omega) hrefuses
    refine ⟨hearly, ?_⟩
    intro hzero id m m' hm hm' hpos
    let older : VersionTag := ⟨0, 1, 0, id, 0⟩
    have hnonzero : ¬ older.IsZero := fun h => absurd h.2.1 (show (1 : BitVec 16) ≠ 0 by decide)
    have hprecedes : VersionTag.Precedes members older tag :=
      .inr ⟨hzero.symm, m, m', hm, hm', hpos⟩
    have hne := ((refused_iff members stamp older hnonzero).mp
      (hrefuses older hprecedes hnonzero)).1
    rw [hstamp, hzero] at hne
    exact hne rfl
  · rintro ⟨hearly, hmembers⟩ older hprecedes hnonzero
    have hstamp' : stamp.getEntryVersion.toNat = tag.entryVersion.toNat := by
      rw [hstamp, Nat.mod_eq_of_lt (by omega)]
    rw [refused_iff members stamp older hnonzero]
    rcases hprecedes with hlt | ⟨heq, m, m', hm, hm', hpos⟩
    · exact ⟨by omega, .inr (.inl ⟨by omega, by omega⟩)⟩
    · have hne : tag.entryVersion.toNat ≠ 0 := by
        intro h
        exact hmembers (BitVec.eq_of_toNat_eq h) older.internalMemID m m' hm hm' hpos
      refine ⟨by omega, .inr (.inr ⟨by rw [heq, hstamp'], ?_⟩)⟩
      intro n n' hn hn'
      rw [hcarries.member, hm] at hn
      rw [hm'] at hn'
      cases hn
      cases hn'
      exact hpos

end

/-! ### Serial numbers of 24 bits -/

theorem toNat_getEntryVersion_lt (stamp : VersionStamp) :
    stamp.getEntryVersion.toNat < 2 ^ 24 := by
  apply Nat.or_lt_two_pow
  · rw [BitVec.toNat_shiftLeft, BitVec.toNat_setWidth, Nat.shiftLeft_eq]
    omega
  · rw [BitVec.toNat_setWidth]
    omega

/-- The version `b` follows `a` by at most `0x10000` steps of a counter of 24 bits. -/
def Follows (a b : Nat) : Prop :=
  1 ≤ ((b : Int) - a) % 2 ^ 24 ∧ ((b : Int) - a) % 2 ^ 24 ≤ 0x10000
  deriving Decidable

section
variable {M : Type} (members : MemberList M) (stamp : VersionStamp) (tag : VersionTag)

/-- The check compares the two versions as serial numbers: a tag that follows the stamp is applied,
and a tag that the stamp follows is refused. -/
structure SerialOrder : Prop where
  applied : Follows stamp.getEntryVersion.toNat tag.entryVersion.toNat →
    stamp.checkForConflict members tag false = .noErr
  refused : Follows tag.entryVersion.toNat stamp.getEntryVersion.toNat →
    stamp.checkForConflict members tag false = .cacheConcurrentModification

variable {stamp tag} (hstamp : ¬ stamp.IsZero) (hversion : tag.entryVersion.toNat < 2 ^ 24)
include hstamp hversion

/-- Where the version check is a comparison of serial numbers. It is not for a stamp with version 0
and a tag from before the wraparound. -/
theorem serialOrder_iff (htag : ¬ tag.IsZero) :
    SerialOrder members stamp tag ↔
      ¬ (stamp.getEntryVersion.toNat = 0 ∧ 2 ^ 24 - 0x10000 ≤ tag.entryVersion.toNat) := by
  have hlt := toNat_getEntryVersion_lt stamp
  have hcheck : ∀ {v v' : Nat}, Follows v v' ∨ Follows v' v →
      stamp.getEntryVersion.toNat = v → tag.entryVersion.toNat = v' →
      stamp.checkForConflict members tag false =
        if v ≠ 0 ∧ (v + 0x10000 < v' ∨ v' < v ∧ v ≤ v' + 0x10000) then
          .cacheConcurrentModification
        else .noErr := by
    rintro v v' hfollows rfl rfl
    have hne : stamp.getEntryVersion.toNat ≠ tag.entryVersion.toNat := by
      unfold Follows at hfollows
      omega
    have hrollover := compareVersions_rollover members stamp tag (by omega) (by omega) hne
    simpa [checkForConflict_eq members stamp tag hstamp htag] using hrollover
  constructor
  · rintro h ⟨hzero, hlate⟩
    have hfollows : Follows tag.entryVersion.toNat stamp.getEntryVersion.toNat := by
      unfold Follows
      omega
    have hrefused := h.refused hfollows
    rw [hcheck (.inr hfollows) rfl rfl, if_neg (fun h => h.1 hzero)] at hrefused
    cases hrefused
  · intro hcond
    refine ⟨fun hfollows => ?_, fun hfollows => ?_⟩
    · rw [hcheck (.inl hfollows) rfl rfl]
      unfold Follows at hfollows
      rw [if_neg (by omega)]
    · rw [hcheck (.inr hfollows) rfl rfl]
      unfold Follows at hfollows
      rw [if_pos (by omega)]

/-- A delta is applied exactly when its version is the next one and it was taken from the value of
the entry, and a full value is asked for otherwise. `current` is the member of the stamp, `previous`
the member that the delta names. -/
def DeltaAcceptance (stamp : VersionStamp) (tag : VersionTag) (current previous : M) : Prop :=
  stamp.processVersionTag members (some tag) true =
    if tag.entryVersion.toNat = (stamp.getEntryVersion.toNat + 1) % 2 ^ 24 ∧
        members.compareTo previous current = 0 then .noErr
    else .invalidDelta

variable {current previous : M} (hcurrent : members.getDSMember stamp.getMemberId = some current)
  (hprevious : members.getDSMember tag.previousMemID = some previous)
include hcurrent hprevious

/-- What the check does with a delta. The successor of the version is taken without wraparound. -/
theorem checkForConflict_delta (htag : ¬ tag.IsZero) :
    stamp.checkForConflict members tag true =
      if tag.entryVersion.toNat = stamp.getEntryVersion.toNat + 1 ∧
          members.compareTo previous current = 0 then .noErr
      else .invalidDelta := by
  have hlt := toNat_getEntryVersion_lt stamp
  rw [checkForConflict_eq members stamp tag hstamp htag]
  generalize hv : stamp.getEntryVersion.toNat = v at *
  generalize hv' : tag.entryVersion.toNat = v' at *
  by_cases hnext : v' = v + 1
  · -- the next version: no rollover, and the members decide
    have hsucc : ¬ (v' : Int) ≠ v + 1 := by omega
    have hcompare : compareVersions members stamp tag v v' = .noErr := by
      rw [compareVersions, if_pos (by omega)]
    rw [rolloverVersions_of_close (by omega) (by omega)]
    simp only [hcompare, checkForDeltaConflict, if_neg hsucc, hcurrent, hprevious, if_true]
    by_cases hmember : members.compareTo previous current = 0
    · simp [hmember, hnext]
    · simp [hmember]
  · have hfar : (rolloverVersions v v').2 ≠ (rolloverVersions v v').1 + 1 := by
      unfold rolloverVersions
      dsimp only
      split_ifs <;> dsimp only <;> omega
    simp [checkForDeltaConflict, hfar, hnext]

end

/-- Members that are their own ids, in the order of the ids. -/
def idMembers : MemberList (BitVec 16) where
  getDSMember := some
  compareTo a b := (a.toNat : Int) - b.toNat

/-- Across the wraparound: version 3 follows version `2^24 - 2`. -/
theorem serialOrder_wraparound :
    Follows (2 ^ 24 - 2) 3 ∧ SerialOrder idMembers ⟨1, 0xff, 0xfffe, 0, 7⟩ ⟨3, 0, 8, 1, 1⟩ :=
  ⟨by decide, (serialOrder_iff idMembers (by decide) (by decide) (by decide)).mpr (by decide)⟩

/-- A stamp whose version has wrapped around to 0 accepts the version before it. -/
theorem stamp_zero_accepts_older :
    let stamp : VersionStamp := ⟨1, 0, 0, 0, 7⟩
    let tag : VersionTag := ⟨0xffffff, 0, 6, 1, 1⟩
    Follows tag.entryVersion.toNat stamp.getEntryVersion.toNat ∧
      stamp.checkForConflict idMembers tag false = .noErr := by
  decide

end VersionStamp

end GeodeNative.Cache
