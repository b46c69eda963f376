import GeodeNative.Events.EventIdMap
import GeodeNative.Lib.Run

/-!
# Events are accepted once and acknowledged

Of each node the calls use the sequence number and the mark (`EventIdMap.view`). Each call has one
lemma that says what it does to the view (`view_put`, `view_touch`, `view_getUnAcked`,
`view_clearAckedFlags`). `Consistent` relates the view to the accepted events and the lists in
flight, and every call keeps it as long as the sources that are put have an id (`consistent_step`).

The mark of a source may be taken back by a list that has an older event of it. That only leads to a
second acknowledgement: a mark that is set always has a list that was not cleared.
-/

set_option autoImplicit false

namespace GeodeNative.Events

open Lib EventIdMap

namespace EventIdMap
variable (m : EventIdMap) (s : EventSource)

/-- The sequence number and the mark of a source. -/
def view : Option (Int × Bool) := (m.find s).map fun v => (v.seqNum, v.acked)

theorem view_assign (k : EventSource) (v : EventSequence) :
    (m.assign k v).view s = if k = s ∧ k.HasId then some (v.seqNum, v.acked) else m.view s := by
  unfold view find assign
  rw [UnorderedMap.find_assign,
    if_congr (show EventSource.keyEqual.equal k s = true ↔ _ from EventSource.equal_iff) rfl rfl,
    apply_ite (Option.map fun v : EventSequence => (v.seqNum, v.acked))]
  rfl

variable {m s}

theorem hasId_of_view {p : Int × Bool} (h : m.view s = some p) : s.HasId := by
  obtain ⟨v, hv, -⟩ := Option.map_eq_some_iff.mp h
  obtain ⟨b, -, hb, -⟩ := UnorderedMap.mem_of_find _ hv
  obtain ⟨rfl, hid⟩ := EventSource.equal_iff.mp hb
  exact hid

variable (m s)

/-- `put` refuses the duplicates and stores the rest. -/
theorem put_eq (now : Int) (k : EventSource) (seq : Int) :
    m.put now k (.new now seq) true =
      if m.isDuplicate k (.new now seq) then (false, m)
      else (true, m.assign k ((EventSequence.new now seq).touch now m.expiry)) := by
  unfold put isDuplicate
  cases m.find k with
  | none => rfl
  | some entry => rfl

theorem isDuplicate_iff (now : Int) (k : EventSource) (seq : Int) :
    m.isDuplicate k (.new now seq) = true ↔ ∃ q b, m.view k = some (q, b) ∧ seq ≤ q := by
  unfold isDuplicate view
  cases m.find k with
  | none => simp
  | some entry =>
    refine decide_eq_true_iff.trans ⟨fun hle => ⟨_, _, rfl, hle⟩, ?_⟩
    intro ⟨q, b, hq, hle⟩
    cases hq
    exact hle

theorem view_touch (now : Int) (k : EventSource) : (m.touch now k).2.view s = m.view s := by
  unfold touch
  cases hfind : m.find k with
  | none => rfl
  | some entry =>
    rw [view_assign]
    split
    · next hk =>
      obtain ⟨rfl, -⟩ := hk
      unfold view
      rw [hfind]
      rfl
    · rfl

theorem view_getUnAcked : m.getUnAcked.2.view s = (m.view s).map fun p => (p.1, true) := by
  have hfind : m.getUnAcked.2.find s = (m.find s).map fun v =>
      if v.acked then v else v.setAcked true :=
    UnorderedMap.find_map EventSource.keyEqual
      (fun v : EventSequence => if v.acked then v else v.setAcked true) m.map s
  unfold view
  rw [hfind, Option.map_map, Option.map_map]
  congr 1
  funext v
  cases hacked : v.acked <;> simp [hacked, EventSequence.setAcked]

theorem view_clearLoop (cleared : Nat) (entries : EventIdMapEntryList) :
    (m.clearLoop cleared entries).2.view s =
      if ∃ e ∈ entries, e.1 = s then (m.view s).map fun p => (p.1, false) else m.view s := by
  induction entries generalizing m cleared with
  | nil => simp [clearLoop]
  | cons item entries ih =>
    have hcons : (∃ e ∈ item :: entries, e.1 = s) ↔ item.1 = s ∨ ∃ e ∈ entries, e.1 = s := by simp
    unfold clearLoop
    cases hfind : m.find item.1 with
    | none =>
      rw [ih]
      by_cases hitem : item.1 = s
      · -- the source is not in the map, before and after
        subst hitem
        have hnone : m.view item.1 = none := by rw [view, hfind]; rfl
        simp [hnone]
      · rw [if_congr (hcons.trans (or_iff_right hitem)) rfl rfl]
    | some entry =>
      have hview : m.view item.1 = some (entry.seqNum, entry.acked) := by rw [view, hfind]; rfl
      have hassign := view_assign m s item.1 (entry.setAcked false)
      by_cases hitem : item.1 = s
      · subst hitem
        rw [if_pos ⟨rfl, hasId_of_view hview⟩] at hassign
        rw [ih, hassign, if_pos (hcons.mpr (.inl rfl)), hview, Option.map_some]
        exact ite_self _
      · rw [if_neg fun h => hitem h.1] at hassign
        rw [ih, hassign, if_congr (hcons.trans (or_iff_right hitem)) rfl rfl]

/-- `clearAckedFlags` takes the marks of the sources in the list back. -/
theorem view_clearAckedFlags (entries : EventIdMapEntryList) :
    (m.clearAckedFlags entries).2.view s =
      if ∃ e ∈ entries, e.1 = s then (m.view s).map fun p => (p.1, false) else m.view s :=
  view_clearLoop m s 0 entries

variable {m s}

/-- The next `getUnAcked` returns a source without the mark. -/
theorem lists_getUnAcked {q : Int} (h : m.view s = some (q, false)) :
    EventHistory.Lists m.getUnAcked.1 s q := by
  obtain ⟨v, hv, hq⟩ := Option.map_eq_some_iff.mp h
  obtain ⟨b, hb, hequal, rfl⟩ := UnorderedMap.mem_of_find _ hv
  obtain ⟨hsource, -⟩ := EventSource.equal_iff.mp hequal
  obtain ⟨hseq, hacked⟩ := Prod.mk.inj hq
  refine ⟨(b.1, b.2.setAcked true), ?_, hsource, hseq⟩
  refine List.mem_filterMap.mpr ⟨b, hb, ?_⟩
  rw [hacked]
  rfl

end EventIdMap

namespace EventHistory

/-- The map has the newest accepted number of each source, and a mark stands for a list in
flight. -/
structure Consistent (h : EventHistory) : Prop where
  hasId : ∀ s q, (s, q) ∈ h.accepted → s.HasId
  newest : ∀ s q acked, h.map.view s = some (q, acked) → h.Newest s q
  present : ∀ s q, (s, q) ∈ h.accepted → ∃ p, h.map.view s = some p
  inFlight : ∀ s q, h.map.view s = some (q, true) → h.InFlight s q
  nodup : h.accepted.Nodup

theorem consistent_init (expirySecs : Int) : Consistent (init expirySecs) where
  hasId _ _ h := nomatch h
  newest _ _ _ h := nomatch h
  present _ _ h := nomatch h
  inFlight _ _ h := nomatch h
  nodup := List.nodup_nil

variable {h : EventHistory} (hc : Consistent h)
include hc

variable {s : EventSource}

theorem Consistent.view_newest {q : Int} (hq : h.Newest s q) :
    ∃ acked, h.map.view s = some (q, acked) := by
  obtain ⟨⟨q', acked⟩, hview⟩ := hc.present s q hq.1
  have hq' := hc.newest s q' acked hview
  have heq : q' = q := Int.le_antisymm (hq.2 q' hq'.1) (hq'.2 q hq.1)
  exact ⟨acked, heq ▸ hview⟩

/-- `put` accepts exactly the numbers that are newer than everything accepted for the source. -/
theorem Consistent.accepts_iff (now : Int) (s : EventSource) (seq : Int) :
    (h.checkDupAndAdd now s seq).1 = true ↔ ∀ q, (s, q) ∈ h.accepted → q < seq := by
  have hput : (h.checkDupAndAdd now s seq).1 = true ↔
      ¬h.map.isDuplicate s (.new now seq) = true := by
    unfold checkDupAndAdd
    rw [put_eq]
    cases h.map.isDuplicate s (.new now seq) <;> simp
  rw [hput, isDuplicate_iff]
  constructor
  · intro hnew q hq
    obtain ⟨⟨q', acked⟩, hview⟩ := hc.present s q hq
    have hlt : q' < seq := Int.not_le.mp fun hle => hnew ⟨q', acked, hview, hle⟩
    exact Int.lt_of_le_of_lt ((hc.newest s q' acked hview).2 q hq) hlt
  · intro hnew ⟨q, acked, hview, hle⟩
    exact Int.not_le.mpr (hnew q (hc.newest s q acked hview).1) hle

/-- A call of `put`: refused, or stored as the newest number of the source. -/
theorem Consistent.put_cases (now : Int) (s : EventSource) (seq : Int) :
    h.step (.put now s seq) = h ∨
      (∀ q, (s, q) ∈ h.accepted → q < seq) ∧
        ∃ m, h.step (.put now s seq) =
            { h with map := m, accepted := h.accepted ++ [(s, seq)] } ∧
          ∀ s', m.view s' = if s = s' ∧ s.HasId then some (seq, false) else h.map.view s' := by
  have hiff := hc.accepts_iff now s seq
  unfold checkDupAndAdd at hiff
  simp only [step, checkDupAndAdd]
  rw [put_eq] at hiff ⊢
  by_cases hdup : h.map.isDuplicate s (.new now seq) = true
  · rw [if_pos hdup]
    exact .inl rfl
  · rw [if_neg hdup] at hiff ⊢
    exact .inr ⟨hiff.mp rfl, _, rfl, fun s' => view_assign _ _ _ _⟩

theorem consistent_put {now : Int} {seq : Int} (hid : s.HasId) :
    Consistent (h.step (.put now s seq)) := by
  cases hc.put_cases now s seq with
  | inl hrefused =>
    rw [hrefused]
    exact hc
  | inr haccepted =>
    obtain ⟨hnew, m, hstep, hview⟩ := haccepted
    rw [hstep]
    -- the view of `s` is the new event, that of every other source is as it was
    have hself : m.view s = some (seq, false) := by rw [hview, if_pos ⟨rfl, hid⟩]
    have hother : ∀ s', s ≠ s' → m.view s' = h.map.view s' := by
      intro s' hs
      rw [hview, if_neg fun hs' => hs hs'.1]
    have hmem : ∀ s' q, (s', q) ∈ h.accepted ++ [(s, seq)] ↔
        (s', q) ∈ h.accepted ∨ s' = s ∧ q = seq := by
      simp
    refine ⟨?_, ?_, ?_, ?_, ?_⟩
    · intro s' q hq
      cases (hmem s' q).mp hq with
      | inl hold => exact hc.hasId s' q hold
      | inr hnow => exact hnow.1 ▸ hid
    · intro s' q acked hq
      by_cases hs : s = s'
      · subst hs
        cases hself.symm.trans hq
        refine ⟨(hmem s seq).mpr (.inr ⟨rfl, rfl⟩), ?_⟩
        intro q' hq'
        cases (hmem s q').mp hq' with
        | inl hold => exact Int.le_of_lt (hnew q' hold)
        | inr hnow => exact Int.le_of_eq hnow.2
      · obtain ⟨hin, hmax⟩ := hc.newest s' q acked ((hother s' hs).symm.trans hq)
        refine ⟨(hmem s' q).mpr (.inl hin), ?_⟩
        intro q' hq'
        cases (hmem s' q').mp hq' with
        | inl hold => exact hmax q' hold
        | inr hnow => exact absurd hnow.1.symm hs
    · intro s' q hq
      by_cases hs : s = s'
      · exact ⟨_, hs ▸ hself⟩
      · obtain hold | hnow := (hmem s' q).mp hq
        · exact (hother s' hs).symm ▸ hc.present s' q hold
        · exact absurd hnow.1.symm hs
    · intro s' q hq
      by_cases hs : s = s'
      · subst hs
        cases hself.symm.trans hq
      · exact hc.inFlight s' q ((hother s' hs).symm.trans hq)
    · refine List.nodup_append.mpr ⟨hc.nodup, by simp, ?_⟩
      intro e he e' he' heq
      rw [List.mem_singleton.mp he'] at heq
      exact absurd (hnew seq (heq ▸ he)) (Int.lt_irrefl seq)

omit hc in
theorem stored_eq (h : EventHistory) (s : EventSource) :
    h.stored s = (h.map.view s).map (·.1) := by
  unfold stored view
  rw [Option.map_map]
  rfl

omit hc in
/-- Only `put` changes a sequence number. -/
theorem stored_step {op : EventOp} (hop : ∀ now s seq, op ≠ .put now s seq) (s : EventSource) :
    (h.step op).stored s = h.stored s := by
  rw [stored_eq, stored_eq]
  cases op with
  | put now k seq => exact absurd rfl (hop now k seq)
  | isDuplicate k seq => rfl
  | touch now k => exact congrArg _ (view_touch h.map s now k)
  | getUnAcked =>
    rw [show (h.step .getUnAcked).map.view s = _ from view_getUnAcked h.map s,
      Option.map_map]
    rfl
  | clearAckedFlags i =>
    cases hr : h.returned[i]? with
    | none => simp only [step, hr]
    | some r =>
      simp only [step, hr]
      rw [view_clearAckedFlags]
      split
      · rw [Option.map_map]
        rfl
      · rfl

theorem Consistent.remark {h' : EventHistory} (haccepted : h'.accepted = h.accepted)
    (hstored : ∀ s, h'.stored s = h.stored s)
    (hflight : ∀ s q, h'.map.view s = some (q, true) → h'.InFlight s q) : Consistent h' where
  hasId s q hq := hc.hasId s q (haccepted ▸ hq)
  newest s q acked hq := by
    have hs := hstored s
    rw [stored_eq, stored_eq, hq] at hs
    obtain ⟨p, hp, hq⟩ := Option.map_eq_some_iff.mp hs.symm
    have hnewest := hc.newest s p.1 p.2 hp
    rw [hq] at hnewest
    exact ⟨haccepted ▸ hnewest.1, fun q' hq' => hnewest.2 q' (haccepted ▸ hq')⟩
  present s q hq := by
    obtain ⟨p, hp⟩ := hc.present s q (haccepted ▸ hq)
    have hs := hstored s
    rw [stored_eq, stored_eq, hp] at hs
    obtain ⟨p', hp', -⟩ := Option.map_eq_some_iff.mp hs
    exact ⟨p', hp'⟩
  inFlight := hflight
  nodup := haccepted ▸ hc.nodup

theorem consistent_getUnAcked : Consistent (h.step .getUnAcked) := by
  refine hc.remark rfl (stored_step nofun) ?_
  intro s q hq
  rw [show (h.step .getUnAcked).map.view s = _ from view_getUnAcked h.map s] at hq
  obtain ⟨⟨q', acked⟩, hview, hp⟩ := Option.map_eq_some_iff.mp hq
  cases hp
  cases acked with
  | true =>
    -- marked before: the list is still in flight
    obtain ⟨r, hr, hflight⟩ := hc.inFlight s q' hview
    exact ⟨r, List.mem_append_left _ hr, hflight⟩
  | false =>
    -- marked now: the list that is returned has it
    exact ⟨_, List.mem_append_right _ (List.mem_singleton.mpr rfl), rfl,
      lists_getUnAcked hview⟩

theorem consistent_clearAckedFlags (i : Nat) : Consistent (h.step (.clearAckedFlags i)) := by
  have hstored : ∀ s, (h.step (.clearAckedFlags i)).stored s = h.stored s :=
    stored_step nofun
  cases hr : h.returned[i]? with
  | none =>
    simp only [step, hr]
    exact hc
  | some r =>
    simp only [step, hr] at hstored ⊢
    refine hc.remark rfl hstored ?_
    intro s q hq
    rw [view_clearAckedFlags] at hq
    split at hq
    · obtain ⟨p, -, heq⟩ := Option.map_eq_some_iff.mp hq
      cases heq
    · next hnone =>
      -- the list in flight has the source, so it is not the one that is cleared
      obtain ⟨r', hr', hcleared, e, he, hsource, hseq⟩ := hc.inFlight s q hq
      obtain ⟨j, hj⟩ := List.mem_iff_getElem?.mp hr'
      have hij : i ≠ j := by
        intro heq
        rw [heq, hj] at hr
        cases hr
        exact hnone ⟨e, he, hsource⟩
      refine ⟨r', List.mem_of_getElem? (i := j) ?_, hcleared, e, he, hsource, hseq⟩
      rw [List.getElem?_set_ne hij, hj]

theorem consistent_step {op : EventOp} (hid : ∀ now s seq, op = .put now s seq → s.HasId) :
    Consistent (h.step op) := by
  cases op with
  | put now s seq => exact consistent_put hc (hid now s seq rfl)
  | isDuplicate s seq => exact hc
  | touch now s =>
    exact hc.remark rfl (stored_step nofun) fun s' q hq =>
      hc.inFlight s' q ((view_touch h.map s' now s).symm.trans hq)
  | getUnAcked => exact consistent_getUnAcked hc
  | clearAckedFlags i => exact consistent_clearAckedFlags hc i

/-- No call lets the stored number of a source go down. -/
theorem Consistent.stored_le (op : EventOp) {q : Int} (hq : h.stored s = some q) :
    ∃ q', (h.step op).stored s = some q' ∧ q ≤ q' := by
  by_cases hop : ∃ now k seq, op = .put now k seq
  · obtain ⟨now, k, seq, rfl⟩ := hop
    cases hc.put_cases now k seq with
    | inl hrefused => exact ⟨q, by rw [hrefused, hq], Int.le_refl q⟩
    | inr haccepted =>
      obtain ⟨hnew, m, hstep, hview⟩ := haccepted
      rw [stored_eq] at hq
      rw [hstep, stored_eq]
      rw [hview]
      split
      · next hk =>
        obtain ⟨rfl, -⟩ := hk
        obtain ⟨⟨q', acked⟩, hold, rfl⟩ := Option.map_eq_some_iff.mp hq
        exact ⟨seq, rfl, Int.le_of_lt (hnew q' (hc.newest k q' acked hold).1)⟩
      · exact ⟨q, hq, Int.le_refl q⟩
  · refine ⟨q, ?_, Int.le_refl q⟩
    rw [stored_step fun now k seq heq => hop ⟨now, k, seq, heq⟩, hq]

omit hc in
theorem consistent_run (expirySecs : Int) {l : List EventOp}
    (hid : ∀ now s seq, EventOp.put now s seq ∈ l → s.HasId) :
    Consistent (run step (init expirySecs) l) := by
  refine run_invariant (I := Consistent)
    (P := fun _ op => ∀ now s seq, op = EventOp.put now s seq → s.HasId)
    (fun h op hc hid => consistent_step hc hid) (consistent_init expirySecs) ?_
  refine (along_actions_iff _ l).mpr ?_
  intro op hmem now s seq hop
  exact hid now s seq (hop ▸ hmem)

omit hc in
/-- In a run of calls that puts only sources with an id: the stored number of a source never goes
down, `put` accepts exactly the numbers that are newer than all accepted ones of the source, nothing
is accepted twice, and the newest accepted number of a source is returned by the next `getUnAcked`
unless a list that was not cleared has it. -/
theorem accepted_once_and_acknowledged (expirySecs : Int) {l : List EventOp}
    (hid : ∀ now s seq, EventOp.put now s seq ∈ l → s.HasId) :
    let h := run step (init expirySecs) l
    (∀ op s q, h.stored s = some q → ∃ q', (h.step op).stored s = some q' ∧ q ≤ q') ∧
    (∀ now s seq, (h.checkDupAndAdd now s seq).1 = true ↔
      ∀ q, (s, q) ∈ h.accepted → q < seq) ∧
    h.accepted.Nodup ∧
    ∀ s q, h.Newest s q → h.WillBeReturned s q ∨ h.InFlight s q := by
  intro h
  have hc : Consistent h := consistent_run expirySecs hid
  refine ⟨fun op _ _ hq => hc.stored_le op hq, hc.accepts_iff, hc.nodup, fun s q hq => ?_⟩
  obtain ⟨acked, hview⟩ := hc.view_newest hq
  cases acked with
  | false => exact .inl (lists_getUnAcked hview)
  | true => exact .inr (hc.inFlight s q hview)

omit hc in
theorem accepted_once_and_acknowledged_failover :
    let h := run step (init 300)
      [.put 0 (.new [1] 7) 4, .getUnAcked, .put 1 (.new [1] 7) 5, .getUnAcked, .clearAckedFlags 0]
    h.accepted = [(.new [1] 7, 4), (.new [1] 7, 5)] ∧
      (h.WillBeReturned (.new [1] 7) 5 ∨ h.InFlight (.new [1] 7) 5) := by
  refine ⟨by decide +kernel, (accepted_once_and_acknowledged 300 ?_).2.2.2 _ 5 ?_⟩
  · intro now s seq hput
    simp only [List.mem_cons, EventOp.put.injEq, List.not_mem_nil, or_false, reduceCtorEq,
      false_or] at hput
    obtain ⟨-, rfl, -⟩ | ⟨-, rfl, -⟩ := hput <;> decide +kernel
  · unfold Newest
    rw [show (run step (init 300) _).accepted = [(.new [1] 7, 4), (.new [1] 7, 5)] by
      decide +kernel]
    simp

omit hc in
/-- A source without an id is never found: its event is accepted again, and its mark stays when the
list is cleared. -/
theorem accepted_twice_without_id :
    let h := run step (init 300)
      [.put 0 (.new [] 7) 4, .put 1 (.new [] 7) 4, .getUnAcked, .clearAckedFlags 0]
    h.accepted = [(.new [] 7, 4), (.new [] 7, 4)] ∧ h.Newest (.new [] 7) 4 ∧
      ¬h.WillBeReturned (.new [] 7) 4 ∧ ¬h.InFlight (.new [] 7) 4 := by
  have haccepted : (run step (init 300) [.put 0 (.new [] 7) 4, .put 1 (.new [] 7) 4, .getUnAcked,
      .clearAckedFlags 0]).accepted = [(.new [] 7, 4), (.new [] 7, 4)] := by
    decide +kernel
  refine ⟨haccepted, ?_, ?_, ?_⟩
  · unfold Newest
    rw [haccepted]
    simp
  · unfold WillBeReturned Lists
    decide +kernel
  · unfold InFlight Lists
    decide +kernel

end EventHistory
end GeodeNative.Events
