import GeodeNative.Client.ClientMetadata

/-!
# The update of the locations of a bucket

The loop over the groups of a location pushes the location for each empty group, and once more for
the first group that is the group of the client, which ends the loop. So the update keeps each
location once exactly when no location has an empty group that is followed by another one, or by
the group of the client, before the loop ends (`updated_iff`).
-/

set_option autoImplicit false

namespace GeodeNative.Client.ClientMetadata

open Lib List

section
variable {P : Type} (location : P → BucketServerLocation)
  (getServerGroups : P → List (List Byte)) (serverGroup : List Byte)

/-- What the list `stored` of a bucket has to be. -/
structure Updated [DecidableEq P] (supplied stored : List P) : Prop where
  primariesFirst : ∃ primaries secondaries, stored = primaries ++ secondaries ∧
    (∀ p ∈ primaries, (location p).isPrimary = true) ∧
    ∀ p ∈ secondaries, (location p).isPrimary = false
  nodup : stored.Nodup
  listed : ∀ p ∈ supplied, (serverGroup ≠ [] → serverGroup ∈ getServerGroups p) →
    stored.count p = 1 ∧
      (updateLocation location getServerGroups serverGroup p).2 = (location p).serverName

/-- The group is not empty and is the group of the client, compared up to the first zero byte. -/
def isClientGroup (cs : List Byte) : Bool :=
  cs ≠ [] && cs.takeWhile (· ≠ 0) = serverGroup.takeWhile (· ≠ 0)

/-- In the array of the groups at most one group is empty or the group of the client, up to and with
the first one that is the group of the client. -/
def OneGroup (groups : List (List Byte)) : Prop :=
  (groups.takeWhile fun cs => !isClientGroup serverGroup cs).count [] +
    (if groups.any (isClientGroup serverGroup) then 1 else 0) ≤ 1

/-- The loop pushes as often as there are empty groups before the group of the client, and once for
that group. -/
theorem length_groupPushes (p : P) (groups : List (List Byte)) :
    (groupPushes serverGroup p groups).length =
      (groups.takeWhile fun cs => !isClientGroup serverGroup cs).count [] +
        (if groups.any (isClientGroup serverGroup) then 1 else 0) := by
  induction groups with
  | nil => rfl
  | cons cs groups ih =>
    by_cases hempty : cs = []
    · -- the empty group is pushed for, and the loop goes on
      have hclient : isClientGroup serverGroup cs = false := by rw [hempty]; rfl
      rw [groupPushes, if_neg (by simp [hempty]), length_cons, ih, takeWhile_cons_of_pos
        (by simp [hclient]), hempty, count_cons_self, any_cons, ← hempty, hclient, Bool.false_or]
      exact Nat.add_right_comm _ _ 1
    · rw [groupPushes, if_pos (length_pos_iff.mpr hempty)]
      by_cases hmatch : cs.takeWhile (· ≠ 0) = serverGroup.takeWhile (· ≠ 0)
      · have hclient : isClientGroup serverGroup cs = true := by
          rw [isClientGroup, decide_eq_true hempty, decide_eq_true hmatch]
          rfl
        rw [if_pos hmatch, takeWhile_cons_of_neg (by simp [hclient]), any_cons, hclient]
        rfl
      · have hclient : isClientGroup serverGroup cs = false := by
          rw [isClientGroup, decide_eq_false hmatch, Bool.and_false]
        rw [if_neg hmatch, ih, takeWhile_cons_of_pos (by simp [hclient]),
          count_cons_of_ne hempty, any_cons, hclient, Bool.false_or]

/-- The loop over the groups pushes only its own location, and at least once when the group of the
client is among the groups. -/
theorem groupPushes_eq_replicate (p : P) (groups : List (List Byte)) :
    ∃ n, groupPushes serverGroup p groups = replicate n p ∧ (serverGroup ∈ groups → n ≠ 0) := by
  induction groups with
  | nil => exact ⟨0, rfl, by simp⟩
  | cons cs groups ih =>
    obtain ⟨n, hn, hlisted⟩ := ih
    rw [groupPushes]
    split_ifs with hempty hmatch
    · exact ⟨1, rfl, by simp⟩
    · refine ⟨n, hn, fun h => hlisted ?_⟩
      exact (mem_cons.mp h).resolve_left fun heq => hmatch (by rw [heq])
    · exact ⟨n + 1, by rw [hn, replicate_succ], by simp⟩

/-- A turn pushes its own location, as often as the loop over the groups or at most once. -/
theorem updateLocation_eq_replicate (p : P) :
    ∃ n, (updateLocation location getServerGroups serverGroup p).1 = replicate n p ∧
      (n ≤ 1 ↔ serverGroup ≠ [] → OneGroup serverGroup (getServerGroups p)) ∧
      ((serverGroup ≠ [] → serverGroup ∈ getServerGroups p) → n ≠ 0 ∧
        (updateLocation location getServerGroups serverGroup p).2 = (location p).serverName) := by
  obtain ⟨n, hn, hlisted⟩ := groupPushes_eq_replicate serverGroup p (getServerGroups p)
  rw [OneGroup, ← length_groupPushes serverGroup p]
  by_cases hgroup : serverGroup = []
  · exact ⟨1, by simp [updateLocation, hgroup]⟩
  by_cases hgroups : getServerGroups p = []
  · exact ⟨0, by simp [updateLocation, hgroup, hgroups, groupPushes]⟩
  cases n with
  | zero => exact ⟨1, by simp_all [updateLocation, length_pos_iff]⟩
  | succ n => exact ⟨n + 1, by simp_all [updateLocation, length_pos_iff, replicate_succ]⟩

end

end GeodeNative.Client.ClientMetadata
