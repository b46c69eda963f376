import GeodeNative.Proofs.Events.EventIdMap

/-!
# No event expires before it is acknowledged

`doPeriodicAck` marks the events that it sends before it knows the outcome, takes the marks back
when the request fails, and then drops the marked events whose time is over. Events arrive in
between.

`accepted_covered`: an accepted event whose source has an id is acknowledged, or in the request, or
will be in the next one, unless this holds of a newer event of its source. Events of sources
without an id may come in between; such a source equals no other one, so they have no part in it.
The invariant is that a mark stands for an acknowledgement or for the request (`Inv.marked`); the
expiry comes when there is no request.
-/

set_option autoImplicit false

namespace GeodeNative.Events

open Lib EventIdMap EventHistory List

namespace EventIdMap
variable {m : EventIdMap} {s : EventSource}

/-- No two nodes have equal sources. -/
def Distinct (m : EventIdMap) : Prop := UnorderedMap.Distinct EventSource.keyEqual m.map

theorem Distinct.getUnAcked (h : m.Distinct) : m.getUnAcked.2.Distinct := pairwise_map.mpr h

theorem Distinct.clearLoop (h : m.Distinct) (cleared : Nat) (entries : EventIdMapEntryList) :
    (m.clearLoop cleared entries).2.Distinct := by
  induction entries generalizing m cleared with
  | nil => exact h
  | cons item entries ih =>
    unfold EventIdMap.clearLoop
    split
    · exact ih (m := m.assign item.1 _) (UnorderedMap.Distinct.assign h _ _) _
    · exact ih h _

section
variable (hm : m.Distinct) (now : Int)
include hm

/-- What is found after the expiry was there before. -/
theorem view_of_expire {onlyacked : Bool} {p : Int × Bool}
    (h : (m.expire now onlyacked).2.view s = some p) : m.view s = some p := by
  obtain ⟨v, hv, rfl⟩ := Option.map_eq_some_iff.mp h
  obtain ⟨b, hb, hequal, rfl⟩ := UnorderedMap.mem_of_find _ hv
  have hmem := (UnorderedMap.eraseAll_sublist _ _ _).subset hb
  rw [view, find, UnorderedMap.find_of_mem hm hmem hequal]
  rfl

/-- The expiry of the marked events leaves the others. -/
theorem view_expire {q : Int} (h : m.view s = some (q, false)) :
    (m.expire now true).2.view s = some (q, false) := by
  rw [view, find, expire, UnorderedMap.find_eraseAll_of_ne]
  · exact h
  · intro b hb
    obtain ⟨hmem, hacked⟩ := mem_filter.mp hb
    -- a node of the source is the one that is found, which has no mark
    refine Bool.eq_false_iff.mpr fun hequal => ?_
    rw [view, find, UnorderedMap.find_of_mem hm hmem hequal] at h
    simp_all

end

end EventIdMap

namespace PeriodicAck

/-- The request has the event. -/
def Sent (a : PeriodicAck) (s : EventSource) (q : Int) : Prop :=
  ∃ entries, a.phase = .sending entries ∧ Lists entries s q

/-- A mark stands for an acknowledgement or for the request. For each accepted event of a source
with an id, an event of the source that is not older is acknowledged or stored. -/
structure Inv (a : PeriodicAck) : Prop where
  ha : a.haEnabled = true
  distinct : a.map.Distinct
  marked : ∀ s q, a.map.view s = some (q, true) → (s, q) ∈ a.acked ∨ a.Sent s q
  covered : ∀ s q, s.HasId → (s, q) ∈ a.accepted → ∃ q', q ≤ q' ∧
    ((s, q') ∈ a.acked ∨ ∃ b, a.map.view s = some (q', b))

variable {a a' : PeriodicAck} (h : Inv a)
include h

/-- A stored event that is not acknowledged may only give way to a newer one. -/
theorem Inv.covers {s : EventSource} (hid : s.HasId) {q : Int}
    (hacked : ∀ p ∈ a.acked, p ∈ a'.acked)
    (hview : ∀ p, a.map.view s = some p → (s, p.1) ∈ a'.acked ∨
      ∃ p', a'.map.view s = some p' ∧ p.1 ≤ p'.1) (hq : (s, q) ∈ a.accepted) :
    ∃ q', q ≤ q' ∧ ((s, q') ∈ a'.acked ∨ ∃ b, a'.map.view s = some (q', b)) := by
  obtain ⟨q', hle, hold | ⟨b, hb⟩⟩ := h.covered s q hid hq
  · exact ⟨q', hle, .inl (hacked _ hold)⟩
  · obtain hnow | ⟨p', hp', hle'⟩ := hview _ hb
    · exact ⟨q', hle, .inl hnow⟩
    · exact ⟨p'.1, hle.trans hle', .inr ⟨p'.2, hp'⟩⟩

theorem Inv.acked_of_marked (hphase : ∀ entries, a.phase ≠ .sending entries) {s : EventSource}
    {q : Int} (hq : a.map.view s = some (q, true)) : (s, q) ∈ a.acked := by
  refine (h.marked s q hq).resolve_right ?_
  rintro ⟨entries, hsending, -⟩
  exact hphase entries hsending

/-- An event arrives. When it is accepted, it takes the place of the stored event of its source. -/
theorem Inv.checkDupAndAdd (s : EventSource) (now seq : Int) :
    Inv (a.step (.checkDupAndAdd now s seq)) := by
  simp only [step, put_eq]
  by_cases hdup : a.map.isDuplicate s (.new now seq) = true
  · rw [if_pos hdup]
    simpa using h
  · rw [if_neg hdup]
    rw [isDuplicate_iff] at hdup
    have hview : ∀ s', (a.map.assign s _).view s' = _ := fun s' =>
      view_assign a.map s' s ((EventSequence.new now seq).touch now a.map.expiry)
    refine ⟨h.ha, UnorderedMap.Distinct.assign h.distinct _ _, ?_, ?_⟩
    · intro s' q hq
      rw [hview] at hq
      split at hq
      · cases hq
      · exact h.marked s' q hq
    · intro s' q hid hq
      obtain hold | hnew := mem_append.mp hq
      · refine h.covers hid (fun _ => id) (fun p hp => .inr ?_) hold
        rw [hview]
        split
        · -- the stored event of the source is older than the new one
          next hs =>
          have hlt := fun hle => hdup ⟨p.1, p.2, hs.1 ▸ hp, hle⟩
          exact ⟨_, rfl, Int.le_of_lt (Int.not_le.mp hlt)⟩
        · exact ⟨p, hp, Int.le_refl _⟩
      · cases mem_singleton.mp hnew
        exact ⟨seq, Int.le_refl _, .inr ⟨false, by rw [hview, if_pos ⟨rfl, hid⟩]; rfl⟩⟩

/-- The thread collects the events without a mark, marks them and sends them. -/
theorem Inv.getUnAcked (now : Int) : Inv (a.step (.getUnAcked now)) := by
  unfold step
  dsimp only
  split
  · exact h
  · next hidle =>
    have hphase : ∀ entries, a.phase ≠ .sending entries := by simp [not_not.mp hidle]
    split
    · refine ⟨h.ha, h.distinct.getUnAcked, ?_, ?_⟩
      · intro s q hq
        rw [view_getUnAcked] at hq
        obtain ⟨⟨q', acked⟩, hp, heq⟩ := Option.map_eq_some_iff.mp hq
        cases heq
        cases acked with
        | true => exact .inl (h.acked_of_marked hphase hp)
        | false =>
          obtain ⟨e, he, hevent⟩ := lists_getUnAcked hp
          exact .inr ⟨_, if_neg (ne_nil_of_mem he), e, he, hevent⟩
      · intro s q hid hq
        refine h.covers hid (fun _ => id) (fun p hp => .inr ?_) hq
        rw [view_getUnAcked, hp]
        exact ⟨_, rfl, Int.le_refl _⟩
    · exact ⟨h.ha, h.distinct, fun s q hq => .inl (h.acked_of_marked hphase hq), h.covered⟩

/-- The reply comes: the events of the request are acknowledged, or their marks are taken back. -/
theorem Inv.reply (acked : Bool) : Inv (a.step (.reply acked)) := by
  unfold step
  dsimp only
  split
  · next entries hphase =>
    have hsent : ∀ s q, a.map.view s = some (q, true) → (s, q) ∈ a.acked ∨ Lists entries s q := by
      intro s q hq
      refine (h.marked s q hq).imp_right ?_
      rintro ⟨entries', hsending, hlists⟩
      cases hphase.symm.trans hsending
      exact hlists
    split
    · refine ⟨h.ha, h.distinct, fun s q hq => .inl ?_, fun s q hid hq => ?_⟩
      · obtain hold | ⟨e, he, rfl, rfl⟩ := hsent s q hq
        · exact mem_append_left _ hold
        · exact mem_append_right _ (mem_map_of_mem he)
      · exact h.covers hid (fun _ => mem_append_left _)
          (fun p hp => .inr ⟨p, hp, Int.le_refl _⟩) hq
    · refine ⟨h.ha, h.distinct.clearLoop 0 entries, fun s q hq => .inl ?_, fun s q hid hq => ?_⟩
      · rw [view_clearAckedFlags] at hq
        split at hq
        · obtain ⟨p, -, heq⟩ := Option.map_eq_some_iff.mp hq
          cases heq
        · -- the source is not in the request
          next hnone =>
          refine (hsent s q hq).resolve_right ?_
          rintro ⟨e, he, hsource, -⟩
          exact hnone ⟨e, he, hsource⟩
      · refine h.covers hid (fun _ => id) (fun p hp => .inr ?_) hq
        rw [view_clearAckedFlags, hp]
        split <;> exact ⟨_, rfl, Int.le_refl _⟩
  · exact h

/-- The marked events whose time is over are dropped. There is no request, so they are
acknowledged. -/
theorem Inv.expire (now : Int) : Inv (a.step (.expire now)) := by
  unfold step
  dsimp only
  split
  · exact h
  · next hexpiring =>
    have hphase : ∀ entries, a.phase ≠ .sending entries := by simp [not_not.mp hexpiring]
    rw [h.ha]
    refine ⟨rfl, h.distinct.sublist (UnorderedMap.eraseAll_sublist ..), fun s q hq => .inl ?_,
      fun s q hid hq => ?_⟩
    · exact h.acked_of_marked hphase (view_of_expire h.distinct now hq)
    · refine h.covers hid (fun _ => id) ?_ hq
      rintro ⟨q, acked⟩ hp
      cases acked with
      | true => exact .inl (h.acked_of_marked hphase hp)
      | false => exact .inr ⟨_, view_expire h.distinct now hp, Int.le_refl _⟩

omit h in
/-- For every interleaving of arriving events, of events from sources without an id too, with the
steps of the thread, and whatever the servers reply: every accepted event of a source with an id is
acknowledged, in the request or without a mark, or a newer event of the source is. -/
theorem accepted_covered (expirySecs nextAck nextAckInc : Int) (l : List AckEvent) :
    let a := run step { map := .init expirySecs, haEnabled := true, nextAck, nextAckInc } l
    ∀ s q, s.HasId → (s, q) ∈ a.accepted → ∃ q', q ≤ q' ∧
      ((s, q') ∈ a.acked ∨ a.Sent s q' ∨ a.map.view s = some (q', false)) := by
  intro a s q hid hq
  have hinv : Inv a := by
    refine run_keeps ?_ ⟨rfl, .nil, nofun, nofun⟩
    intro a e h
    cases e with
    | checkDupAndAdd now s seq => exact h.checkDupAndAdd s now seq
    | getUnAcked now => exact h.getUnAcked now
    | reply acked => exact h.reply acked
    | expire now => exact h.expire now
  obtain ⟨q', hle, hacked | ⟨marked, hview⟩⟩ := hinv.covered s q hid hq
  · exact ⟨q', hle, .inl hacked⟩
  · refine ⟨q', hle, ?_⟩
    cases marked with
    | true => exact (hinv.marked s q' hview).imp_right .inl
    | false => exact .inr (.inr hview)

omit h in
/-- An event of a source without an id comes in between. The request fails, so the event does not
expire. -/
theorem accepted_covered_failedRequest :
    let a := run step { map := .init 1, haEnabled := true, nextAck := 0, nextAckInc := 1 }
      [.checkDupAndAdd 0 (.new [1] 7) 4, .checkDupAndAdd 1 (.new [] 7) 2, .getUnAcked 5,
        .reply false, .expire 9]
    ∃ q', 4 ≤ q' ∧ ((.new [1] 7, q') ∈ a.acked ∨ a.Sent (.new [1] 7) q' ∨
      a.map.view (.new [1] 7) = some (q', false)) :=
  accepted_covered 1 0 1 _ (.new [1] 7) 4 (by decide +kernel) (by decide +kernel)

end PeriodicAck

end GeodeNative.Events
