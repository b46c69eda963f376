import GeodeNative.Cache.LRUList

/-!
# Which entry the list gives away

`getLRUEntry` goes round the list until it can leave it. A round that goes on drops an evicted
entry, or puts the head node to the tail and takes its mark away (`Round`). `Passes` says what such
rounds keep: the entries that are not evicted stay in the list, and their bits of eviction stay.
`Exits` lists the three ways to leave (`getLRUEntry_rounds`).

When the entries of the nodes are distinct, the list works as a clock (`getLRUEntry_clock`): it
gives away the first entry without a mark, or the first of all, and keeps the others. Calls in a
row give all entries away, those without a mark first (`evictions_eq`).

The last section is about an entry that was just appended. It is the one that is given away exactly
when every entry before it is passed (`getLRUEntry_appended`): it is evicted, or it is marked and
has no second node further on.
-/

set_option autoImplicit false

namespace GeodeNative.Cache.LRUList

open List

variable {E P : Type}

/-! ### Nodes and properties -/

variable (l : LRUList E P)

@[simp] theorem nodes_appendEntry (e : E) :
    (l.appendEntry e).nodes = l.nodes ++ [e] := rfl

@[simp] theorem properties_appendEntry (e : E) :
    (l.appendEntry e).properties = l.properties := rfl

section
variable [DecidableEq E] (l : LRUList E P) (e e' : E)
  (f : LRUEntryProperties P → LRUEntryProperties P)

theorem properties_modify :
    (l.modify e f).properties e' = if e' = e then f (l.properties e) else l.properties e' := by
  show Function.update l.properties e (f (l.properties e)) e' = _
  rw [Function.update_apply]

@[simp] theorem nodes_setEvicted : (l.setEvicted e).nodes = l.nodes := rfl

@[simp] theorem nodes_clearEvicted : (l.clearEvicted e).nodes = l.nodes := rfl

theorem evicted_clearRecentlyUsed :
    ((l.clearRecentlyUsed e).properties e').evicted = (l.properties e').evicted := by
  rw [clearRecentlyUsed, properties_modify]
  split
  · rename_i h
    rw [h]
  · rfl

theorem evicted_setEvicted :
    ((l.setEvicted e).properties e').evicted =
      if e' = e then true else (l.properties e').evicted := by
  rw [setEvicted, properties_modify]
  split <;> rfl

end

/-! ### Rounds -/

section
variable [DecidableEq E]

/-- What the rounds before the last one keep. -/
structure Passes (l l' : LRUList E P) : Prop where
  evicted : ∀ e, (l'.properties e).evicted = (l.properties e).evicted
  subset : ∀ e ∈ l'.nodes, e ∈ l.nodes
  live : ∀ e ∈ l.nodes, (l.properties e).evicted = false → e ∈ l'.nodes
  unchanged : ∀ e, e ∉ l.nodes → l'.properties e = l.properties e

omit [DecidableEq E] in
theorem Passes.refl : Passes l l :=
  ⟨fun _ => rfl, fun _ h => h, fun _ h _ => h, fun _ _ => rfl⟩

omit [DecidableEq E] in
theorem Passes.trans {l₁ l₂ l₃ : LRUList E P} (h : Passes l₁ l₂) (h' : Passes l₂ l₃) :
    Passes l₁ l₃ where
  evicted e := (h'.evicted e).trans (h.evicted e)
  subset e he := h.subset e (h'.subset e he)
  live e he hlive := h'.live e (h.live e he hlive) (by rw [h.evicted, hlive])
  unchanged e he := (h'.unchanged e fun hmem => he (h.subset e hmem)).trans (h.unchanged e he)

/-- How the loop ends. -/
inductive Exits (l : LRUList E P) : Option E × LRUList E P → Prop where
  /-- The last node is evicted. -/
  | empty (hlast : l.nextNodes = []) (hevicted : (l.properties l.headNode).evicted = true) :
    Exits l (none, l)
  /-- The last node is not, and stays in the list as an evicted one. -/
  | last (hlast : l.nextNodes = []) (hlive : (l.properties l.headNode).evicted = false) :
    Exits l (some l.headNode, l.setEvicted l.headNode)
  /-- The head node is not used. -/
  | head {next : E} {rest : List E} (hnext : l.nextNodes = next :: rest)
    (hlive : (l.properties l.headNode).evicted = false)
    (hunused : (l.properties l.headNode).recentlyUsed = false) :
    Exits l (some l.headNode, { l with headNode := next, nextNodes := rest })

/-- A bound on the rounds: the nodes behind the head, and the nodes with a mark. -/
def rounds (l : LRUList E P) : Nat :=
  l.nextNodes.length + l.nodes.countP fun e => (l.properties e).recentlyUsed

omit [DecidableEq E] in
theorem rounds_lt : l.rounds < 2 * l.nodes.length := by
  have hcount := countP_le_length (p := fun e => (l.properties e).recentlyUsed) (l := l.nodes)
  have hlength : l.nodes.length = l.nextNodes.length + 1 := rfl
  unfold rounds
  omega

variable {l : LRUList E P} {next : E} {rest : List E}

omit [DecidableEq E] in
theorem passes_drop (hnext : l.nextNodes = next :: rest)
    (hevicted : (l.properties l.headNode).evicted = true) :
    Passes l { l with headNode := next, nextNodes := rest } where
  evicted _ := rfl
  subset e he := by
    rw [nodes, hnext]
    exact mem_cons_of_mem _ he
  live e he hlive := by
    rw [nodes, hnext] at he
    cases mem_cons.mp he with
    | inl heq =>
      rw [heq, hevicted] at hlive
      cases hlive
    | inr hmem => exact hmem
  unchanged _ _ := rfl

omit [DecidableEq E] in
theorem rounds_drop (hnext : l.nextNodes = next :: rest) :
    ({ l with headNode := next, nextNodes := rest } : LRUList E P).rounds < l.rounds := by
  have hcount : rest.length + (next :: rest).countP (fun e => (l.properties e).recentlyUsed) <
      (next :: rest).length +
        (l.headNode :: next :: rest).countP (fun e => (l.properties e).recentlyUsed) := by
    rw [countP_cons (l := next :: rest), length_cons]
    omega
  unfold rounds nodes
  rw [hnext]
  exact hcount

/-- The list after the head node went to the tail. -/
def again (l : LRUList E P) (next : E) (rest : List E) : LRUList E P :=
  (({ l with headNode := next, nextNodes := rest } : LRUList E P).clearRecentlyUsed
    l.headNode).appendEntry l.headNode

theorem nodes_again : (l.again next rest).nodes = next :: rest ++ [l.headNode] := rfl

theorem properties_again {e : E} (hne : e ≠ l.headNode) :
    (l.again next rest).properties e = l.properties e := by
  show (clearRecentlyUsed _ l.headNode).properties e = _
  rw [clearRecentlyUsed, properties_modify, if_neg hne]

theorem recentlyUsed_again : ((l.again next rest).properties l.headNode).recentlyUsed = false := by
  show ((clearRecentlyUsed _ l.headNode).properties l.headNode).recentlyUsed = false
  rw [clearRecentlyUsed, properties_modify, if_pos rfl]

theorem passes_again (hnext : l.nextNodes = next :: rest) : Passes l (l.again next rest) where
  evicted e := evicted_clearRecentlyUsed _ l.headNode e
  subset e he := by
    rw [nodes_again] at he
    rw [nodes, hnext]
    simpa [or_comm, or_assoc, or_left_comm] using he
  live e he _ := by
    rw [nodes, hnext] at he
    rw [nodes_again]
    simpa [or_comm, or_assoc, or_left_comm] using he
  unchanged e he := properties_again fun heq => he (heq ▸ mem_cons_self)

theorem rounds_again (hnext : l.nextNodes = next :: rest)
    (hused : (l.properties l.headNode).recentlyUsed = true) :
    (l.again next rest).rounds < l.rounds := by
  have hmono : (next :: rest).countP
        (fun e => ((l.again next rest).properties e).recentlyUsed) ≤
      (next :: rest).countP fun e => (l.properties e).recentlyUsed := by
    apply countP_mono_left
    intro e _ he
    by_cases heq : e = l.headNode
    · rw [heq, recentlyUsed_again] at he
      cases he
    · rwa [properties_again heq] at he
  have hlength : (l.again next rest).nextNodes.length = (next :: rest).length := by
    show (rest ++ [l.headNode]).length = _
    rw [length_append]
    rfl
  have hone : [l.headNode].countP
      (fun e => ((l.again next rest).properties e).recentlyUsed) = 0 := by
    simp [recentlyUsed_again]
  have hall : (l.headNode :: next :: rest).countP (fun e => (l.properties e).recentlyUsed) =
      (next :: rest).countP (fun e => (l.properties e).recentlyUsed) + 1 :=
    countP_cons_of_pos (p := fun e => (l.properties e).recentlyUsed) hused
  unfold rounds
  rw [hlength, nodes_again, nodes, hnext, countP_append, hone, hall]
  omega

/-- A round after which the loop goes on. -/
inductive Round (l : LRUList E P) : LRUList E P → Prop where
  /-- The head node is evicted and dropped. -/
  | drop {next : E} {rest : List E} (hnext : l.nextNodes = next :: rest)
    (hevicted : (l.properties l.headNode).evicted = true) :
    Round l { l with headNode := next, nextNodes := rest }
  /-- The head node was used, and goes to the tail. -/
  | again {next : E} {rest : List E} (hnext : l.nextNodes = next :: rest)
    (hlive : (l.properties l.headNode).evicted = false)
    (hused : (l.properties l.headNode).recentlyUsed = true) : Round l (l.again next rest)

variable {l l' : LRUList E P}

theorem Round.passes (h : Round l l') : Passes l l' := by
  cases h with
  | drop hnext hevicted => exact passes_drop hnext hevicted
  | again hnext _ _ => exact passes_again hnext

theorem Round.rounds_lt (h : Round l l') : l'.rounds < l.rounds := by
  cases h with
  | drop hnext _ => exact rounds_drop hnext
  | again hnext _ hused => exact rounds_again hnext hused

/-- The loop ends here, or it makes a round. -/
theorem findLRUEntry_cases (l : LRUList E P) :
    (∃ r, Exits l r ∧ ∀ n, l.findLRUEntry (n + 1) = r) ∨
      ∃ l', Round l l' ∧ ∀ n, l.findLRUEntry (n + 1) = l'.findLRUEntry n := by
  cases hnext : l.nextNodes with
  | nil =>
    left
    cases hevicted : (l.properties l.headNode).evicted with
    | true =>
      refine ⟨_, .empty hnext hevicted, fun n => ?_⟩
      simp only [findLRUEntry, getHeadNode, hnext, hevicted, if_true]
    | false =>
      refine ⟨_, .last hnext hevicted, fun n => ?_⟩
      simp only [findLRUEntry, getHeadNode, hnext, hevicted, Bool.false_eq_true, if_false]
  | cons next rest =>
    cases hevicted : (l.properties l.headNode).evicted with
    | true =>
      refine .inr ⟨_, .drop hnext hevicted, fun n => ?_⟩
      simp only [findLRUEntry, getHeadNode, hnext, hevicted, if_true]
    | false =>
      cases hused : (l.properties l.headNode).recentlyUsed with
      | true =>
        refine .inr ⟨_, .again hnext hevicted hused, fun n => ?_⟩
        simp only [findLRUEntry, getHeadNode, hnext, hevicted, hused, if_true, Bool.false_eq_true,
          if_false]
        rfl
      | false =>
        refine .inl ⟨_, .head hnext hevicted hused, fun n => ?_⟩
        simp only [findLRUEntry, getHeadNode, hnext, hevicted, hused, Bool.false_eq_true, if_false]

/-- The loop makes some rounds and ends in one of the three ways, whatever bound it has. -/
theorem findLRUEntry_rounds (l : LRUList E P) :
    ∃ l₁ r, Relation.ReflTransGen Round l l₁ ∧ Exits l₁ r ∧
      ∀ n, l.rounds < n → l.findLRUEntry n = r := by
  induction hm : l.rounds using Nat.strongRecOn generalizing l with
  | ind m ih =>
    rcases findLRUEntry_cases l with ⟨r, hexit, heq⟩ | ⟨l', hround, heq⟩
    · refine ⟨l, r, .refl, hexit, fun n hn => ?_⟩
      obtain ⟨n, rfl⟩ := Nat.exists_eq_add_of_lt (Nat.zero_lt_of_lt hn)
      exact heq _
    · have hless := hround.rounds_lt
      obtain ⟨l₁, r, hrounds, hexit, hall⟩ := ih l'.rounds (hm ▸ hless) l' rfl
      refine ⟨l₁, r, .head hround hrounds, hexit, fun n hn => ?_⟩
      obtain ⟨n, rfl⟩ := Nat.exists_eq_add_of_lt (Nat.zero_lt_of_lt hn)
      rw [heq]
      exact hall _ (by omega)

theorem getLRUEntry_rounds (l : LRUList E P) :
    ∃ l₁, Relation.ReflTransGen Round l l₁ ∧ Exits l₁ l.getLRUEntry ∧
      ∀ n, 2 * l.nodes.length ≤ n → l.findLRUEntry n = l.getLRUEntry := by
  obtain ⟨l₁, r, hrounds, hexit, hall⟩ := findLRUEntry_rounds l
  have hlt := l.rounds_lt
  have heq : l.getLRUEntry = r := hall _ hlt
  refine ⟨l₁, hrounds, heq ▸ hexit, fun n hn => ?_⟩
  rw [heq]
  exact hall n (by omega)

theorem passes_of_rounds (h : Relation.ReflTransGen Round l l') : Passes l l' := by
  induction h with
  | refl => exact .refl l
  | tail _ hround ih => exact ih.trans hround.passes

theorem getLRUEntry_exits (l : LRUList E P) : ∃ l₁, Passes l l₁ ∧ Exits l₁ l.getLRUEntry := by
  obtain ⟨l₁, hrounds, hexit, -⟩ := l.getLRUEntry_rounds
  exact ⟨l₁, passes_of_rounds hrounds, hexit⟩

/-- An entry was taken from the list: it was not evicted, and the others that are not evicted are
still there. -/
structure Takes (l : LRUList E P) (e : E) (l' : LRUList E P) : Prop where
  mem : e ∈ l.nodes
  live : (l.properties e).evicted = false
  evicted : ∀ e', e' ≠ e → (l'.properties e').evicted = (l.properties e').evicted
  subset : ∀ e' ∈ l'.nodes, e' ∈ l.nodes
  others : ∀ e' ∈ l.nodes, (l.properties e').evicted = false → e' ≠ e → e' ∈ l'.nodes
  unchanged : ∀ e', e' ∉ l.nodes → l'.properties e' = l.properties e'

theorem getLRUEntry_some {e : E} (h : l.getLRUEntry = (some e, l')) : Takes l e l' := by
  obtain ⟨l₁, hpass, hexit⟩ := l.getLRUEntry_exits
  rw [h] at hexit
  cases hexit with
  | last hlast hlive =>
    have hmem : l₁.headNode ∈ l₁.nodes := mem_cons_self
    refine ⟨hpass.subset _ hmem, by rw [← hpass.evicted, hlive], ?_, hpass.subset, ?_, ?_⟩
    · intro e' hne
      rw [evicted_setEvicted, if_neg hne, hpass.evicted]
    · intro e' he' hlive' _
      exact hpass.live e' he' hlive'
    · intro e' he'
      have hne : e' ≠ l₁.headNode := fun heq => he' (hpass.subset e' (heq ▸ hmem))
      rw [setEvicted, properties_modify, if_neg hne, hpass.unchanged e' he']
  | @head next rest hnext hlive _ =>
    have hmem : l₁.headNode ∈ l₁.nodes := mem_cons_self
    refine ⟨hpass.subset _ hmem, by rw [← hpass.evicted, hlive], ?_, ?_, ?_, ?_⟩
    · intro e' _
      exact hpass.evicted e'
    · intro e' he'
      apply hpass.subset
      rw [nodes, hnext]
      exact mem_cons_of_mem _ he'
    · intro e' he' hlive' hne
      have hmem' := hpass.live e' he' hlive'
      rw [nodes, hnext] at hmem'
      exact (mem_cons.mp hmem').resolve_left hne
    · intro e' he'
      exact hpass.unchanged e' he'

theorem getLRUEntry_none (h : l.getLRUEntry = (none, l')) :
    Passes l l' ∧ ∀ e ∈ l.nodes, (l.properties e).evicted = true := by
  obtain ⟨l₁, hpass, hexit⟩ := l.getLRUEntry_exits
  rw [h] at hexit
  cases hexit with
  | empty hlast hevicted =>
    refine ⟨hpass, ?_⟩
    intro e he
    by_contra hlive
    rw [Bool.not_eq_true] at hlive
    -- only the last node is left, and it is evicted
    have hmem := hpass.live e he hlive
    rw [nodes, hlast, mem_singleton] at hmem
    rw [← hmem, hpass.evicted, hlive] at hevicted
    cases hevicted

end

/-! ### The clock -/

section
variable [DecidableEq E]

/-- The entries that are not evicted, from head to tail. -/
def live (l : LRUList E P) : List E := l.nodes.filter fun e => !(l.properties e).evicted

/-- The entry that a clock gives away: the first one that was not used, or the first one of all. -/
def clockHand (l : LRUList E P) : Option E :=
  (l.live.find? fun e => !(l.properties e).recentlyUsed).or l.live.head?

variable {l l' : LRUList E P}

theorem Round.count_eq (h : Round l l') {e : E} (he : (l.properties e).evicted = false) :
    l'.nodes.count e = l.nodes.count e := by
  cases h with
  | @drop next rest hnext hevicted =>
    have hne : l.headNode ≠ e := by
      rintro rfl
      rw [he] at hevicted
      cases hevicted
    show (next :: rest).count e = _
    rw [nodes, hnext, count_cons_of_ne hne]
  | again hnext _ _ =>
    rw [nodes_again, nodes, hnext]
    exact (perm_append_singleton _ _).count_eq e

theorem Round.nodup (h : Round l l') (hnodup : l.nodes.Nodup) : l'.nodes.Nodup := by
  cases h with
  | drop hnext _ =>
    rw [nodes, hnext] at hnodup
    exact hnodup.of_cons
  | again hnext _ _ =>
    rw [nodes, hnext] at hnodup
    exact (perm_append_singleton _ _).nodup_iff.mpr hnodup

theorem count_of_rounds (h : Relation.ReflTransGen Round l l') {e : E}
    (he : (l.properties e).evicted = false) : l'.nodes.count e = l.nodes.count e := by
  induction h with
  | refl => rfl
  | tail h hround ih =>
    exact (hround.count_eq (((passes_of_rounds h).evicted e).trans he)).trans ih

/-- The returned entry has a node in the list afterwards, and is not evicted, exactly when it had
two nodes. -/
theorem listed_again_iff {e : E} (h : l.getLRUEntry = (some e, l')) :
    e ∈ l'.nodes ∧ (l'.properties e).evicted = false ↔ 2 ≤ l.nodes.count e := by
  obtain ⟨l₁, hrounds, hexit, -⟩ := l.getLRUEntry_rounds
  rw [← count_of_rounds hrounds (getLRUEntry_some h).live]
  rw [h] at hexit
  cases hexit with
  | last hlast hlive =>
    rw [evicted_setEvicted, nodes_setEvicted, nodes, hlast]
    simp
  | @head next rest hnext hlive _ =>
    rw [and_iff_left hlive, nodes, nodes, hnext, count_cons_self, ← one_le_count_iff]
    exact Nat.succ_le_succ_iff.symm

/-- The entries in the order of their eviction: those that were not used come first. -/
def evictionOrder (l : LRUList E P) : List E :=
  (l.live.filter fun e => !(l.properties e).recentlyUsed) ++
    l.live.filter fun e => (l.properties e).recentlyUsed

omit [DecidableEq E] in
/-- A clock gives away the first entry of the order. -/
theorem clockHand_eq_head (l : LRUList E P) : l.clockHand = l.evictionOrder.head? := by
  rw [clockHand, evictionOrder, head?_append, head?_filter]
  cases hfind : l.live.find? fun e => !(l.properties e).recentlyUsed with
  | some e => rfl
  | none =>
    -- all entries were used
    cases hlive : l.live with
    | nil => rfl
    | cons e rest =>
      simp_all

omit [DecidableEq E] in
theorem evictionOrder_perm (l : LRUList E P) : l.evictionOrder.Perm l.live := by
  simpa [evictionOrder] using filter_append_perm (fun e => !(l.properties e).recentlyUsed) l.live

theorem Round.evictionOrder_eq (h : Round l l') (hnodup : l.nodes.Nodup) :
    l'.evictionOrder = l.evictionOrder := by
  cases h with
  | drop hnext hevicted => simp [evictionOrder, live, nodes, hnext, hevicted]
  | @again next rest hnext hlive hused =>
    rw [nodes, hnext] at hnodup
    have hothers : ∀ p : LRUEntryProperties P → Bool,
        (next :: rest).filter (fun e => p ((l.again next rest).properties e)) =
          (next :: rest).filter fun e => p (l.properties e) := by
      intro p
      refine filter_congr fun e he => ?_
      rw [properties_again fun heq => (nodup_cons.mp hnodup).1 (heq ▸ he)]
    -- the head was the first of the marked entries, and is the last of the others now
    simp only [evictionOrder, live, filter_filter, nodes_again, filter_append]
    rw [hothers fun p => !p.recentlyUsed && !p.evicted,
      hothers fun p => p.recentlyUsed && !p.evicted,
      nodes, hnext]
    simp [recentlyUsed_again, (passes_again hnext).evicted, hlive, hused]

/-- A call takes the first entry of the order. -/
theorem getLRUEntry_evictionOrder (hnodup : l.nodes.Nodup) :
    l.getLRUEntry.1 = l.evictionOrder.head? ∧
      l.getLRUEntry.2.evictionOrder = l.evictionOrder.tail ∧ l.getLRUEntry.2.nodes.Nodup := by
  obtain ⟨l₁, hrounds, hexit, -⟩ := l.getLRUEntry_rounds
  have hkept : l₁.nodes.Nodup ∧ l₁.evictionOrder = l.evictionOrder := by
    clear hexit
    induction hrounds with
    | refl => exact ⟨hnodup, rfl⟩
    | tail _ hround ih => exact ⟨hround.nodup ih.1, (hround.evictionOrder_eq ih.1).trans ih.2⟩
  rw [← hkept.2]
  generalize l.getLRUEntry = r at hexit
  cases hexit with
  | empty hlast hevicted => simp [evictionOrder, live, nodes, hlast, hevicted]
  | last hlast hlive =>
    cases hused : (l₁.properties l₁.headNode).recentlyUsed <;>
      simp [evictionOrder, live, nodes, setEvicted, modify, hlast, hlive, hused]
  | head hnext hlive hunused =>
    have hnodup₁ := hkept.1
    rw [nodes, hnext] at hnodup₁
    refine ⟨?_, ?_, hnodup₁.of_cons⟩ <;>
      simp [evictionOrder, live, nodes, hnext, hlive, hunused]

/-- What `getLRUEntry` does to a list with distinct entries. -/
structure Clock (l : LRUList E P) : Prop where
  /-- The loop ends, and the bound of the model does not cut it off. -/
  terminates : ∀ rounds, 2 * l.nodes.length ≤ rounds → l.findLRUEntry rounds = l.getLRUEntry
  /-- Nothing is returned only when every entry is evicted. -/
  empty : l.getLRUEntry.1 = none ↔ ∀ e ∈ l.nodes, (l.properties e).evicted = true
  returned : l.getLRUEntry.1 = l.clockHand
  /-- The returned entry goes, and no other. -/
  kept : ∀ e, e ∈ l.getLRUEntry.2.live ↔ e ∈ l.live ∧ l.getLRUEntry.1 ≠ some e

theorem getLRUEntry_clock (l : LRUList E P) (hnodup : l.nodes.Nodup) : Clock l := by
  obtain ⟨-, -, -, hterminates⟩ := l.getLRUEntry_rounds
  obtain ⟨hfirst, hrest, -⟩ := getLRUEntry_evictionOrder hnodup
  refine ⟨hterminates, ⟨fun h => ?_, fun h => ?_⟩, ?_, ?_⟩
  · exact (getLRUEntry_none (Prod.ext h rfl)).2
  · by_contra hne
    obtain ⟨e, he⟩ := Option.ne_none_iff_exists'.mp hne
    have htakes := getLRUEntry_some (Prod.ext he rfl)
    exact absurd (h e htakes.mem) (by rw [htakes.live]; decide)
  · rw [clockHand_eq_head, hfirst]
  · intro e
    have hdistinct : l.evictionOrder.Nodup := l.evictionOrder_perm.nodup_iff.mpr (hnodup.filter _)
    rw [← (evictionOrder_perm _).mem_iff, ← (evictionOrder_perm _).mem_iff, hrest, hfirst]
    cases horder : l.evictionOrder with
    | nil => simp
    | cons first order =>
      rw [horder] at hdistinct
      have hnot := (nodup_cons.mp hdistinct).1
      by_cases he : e = first
      · simp [he, hnot]
      · simp [he, Ne.symm he]

/-- Two entries that were used: the first one goes. -/
theorem getLRUEntry_clock_used :
    let l : LRUList Nat Unit := ⟨0, [1, 2], fun e => { recentlyUsed := e ≠ 0, evicted := e = 0 }⟩
    l.getLRUEntry.1 = some 1 ∧ Clock l :=
  ⟨rfl, getLRUEntry_clock _ (by decide)⟩

/-- What `n` calls in a row return. -/
def evictions : Nat → LRUList E P → List (Option E)
  | 0, _ => []
  | n + 1, l => l.getLRUEntry.1 :: evictions n l.getLRUEntry.2

/-- Calls in a row give the entries away in this order, each one once, and then nothing. -/
theorem evictions_eq (n : Nat) (l : LRUList E P) (hnodup : l.nodes.Nodup) :
    evictions n l = (l.evictionOrder.map some ++ replicate n none).take n := by
  induction n generalizing l with
  | zero => rfl
  | succ n ih =>
    obtain ⟨hfirst, hrest, hnodup'⟩ := getLRUEntry_evictionOrder hnodup
    rw [evictions, ih _ hnodup', hfirst, hrest]
    cases l.evictionOrder with
    | nil => simp [replicate_succ]
    | cons e order => simp [replicate_succ', ← append_assoc, take_append_of_le_length]

/-- The entry 1 was used, so it goes after the entry 2. -/
theorem evictions_used :
    evictions 3 (⟨0, [1, 2], fun e => ⟨e = 1, e = 0, none⟩⟩ : LRUList Nat Unit) =
      [some 2, some 1, none] :=
  evictions_eq 3 _ (by decide)

end

/-! ### An entry that was just appended -/

section
variable [DecidableEq E]

/-- The loop passes the nodes: each entry is evicted, or it is marked and loses the mark. -/
def Skips (properties : E → LRUEntryProperties P) : List E → Prop
  | [] => True
  | e :: es =>
    (properties e).evicted = true ∧ Skips properties es ∨
      (properties e).evicted = false ∧ (properties e).recentlyUsed = true ∧
        Skips (Function.update properties e { properties e with recentlyUsed := false }) es

/-- Some node has an entry that is not evicted and that is not marked when the loop comes there: it
has no mark, or an earlier node has the same entry. -/
def Spares (l : LRUList E P) : Prop :=
  ∃ front e back, l.nodes = front ++ e :: back ∧ (l.properties e).evicted = false ∧
    ((l.properties e).recentlyUsed = false ∨ e ∈ front)

omit [DecidableEq E] in
theorem forall_split_cons {a : E} {es : List E} {Q : List E → E → Prop} :
    (∀ front e back, a :: es = front ++ e :: back → Q front e) ↔
      Q [] a ∧ ∀ front e back, es = front ++ e :: back → Q (a :: front) e := by
  constructor
  · intro h
    exact ⟨h [] a es rfl, fun front e back heq => h (a :: front) e back (by rw [heq]; rfl)⟩
  · rintro ⟨hhead, htail⟩ front e back heq
    cases front with
    | nil =>
      obtain ⟨rfl, -⟩ := cons.inj heq
      exact hhead
    | cons b front =>
      obtain ⟨rfl, hes⟩ := cons.inj heq
      exact htail front e back hes

theorem skips_iff (properties : E → LRUEntryProperties P) (es : List E) :
    Skips properties es ↔ ∀ front e back, es = front ++ e :: back →
      (properties e).evicted = true ∨ (properties e).recentlyUsed = true ∧ e ∉ front := by
  induction es generalizing properties with
  | nil =>
    refine iff_of_true trivial ?_
    intro front e back h
    simp at h
  | cons a es ih =>
    rw [Skips, ih, ih, forall_split_cons]
    cases hevicted : (properties a).evicted with
    | true =>
      simp only [true_and, true_or, Bool.true_eq_false, false_and, or_false]
      refine forall₄_congr fun front e back _ => ?_
      -- an evicted entry further on is another one, or evicted as well
      by_cases hea : e = a
      · simp [hea, hevicted]
      · simp [hea]
    | false =>
      cases hused : (properties a).recentlyUsed with
      | false => simp
      | true =>
        simp only [Bool.false_eq_true, false_and, false_or, true_and, not_mem_nil,
          not_false_eq_true]
        refine forall₄_congr fun front e back _ => ?_
        -- a second node of the entry would be given away
        by_cases hea : e = a
        · simp [hea, hevicted]
        · simp [hea]

theorem spares_iff : l.Spares ↔ ¬Skips l.properties l.nodes := by
  rw [skips_iff]
  push Not
  refine exists_congr fun front => exists_congr fun e => exists_congr fun back =>
    and_congr_right fun _ => ?_
  rw [ne_eq, Bool.not_eq_true]
  refine and_congr_right fun _ => ?_
  constructor
  · intro h hused
    cases h with
    | inl h => rw [h] at hused; cases hused
    | inr h => exact h
  · intro h
    cases hused : (l.properties e).recentlyUsed with
    | true => exact .inr (h hused)
    | false => exact .inl rfl

/-- The loop comes to an entry behind the nodes of `es` exactly when it passes these. -/
theorem findLRUEntry_eq_some {x : E} (es : List E) (n : Nat) (l : LRUList E P) (moved : List E)
    (hnodes : l.nodes = es ++ x :: moved) (hx : x ∉ es) (hlive : (l.properties x).evicted = false)
    (hunused : (l.properties x).recentlyUsed = false) :
    (l.findLRUEntry (es.length + 1 + n)).1 = some x ↔ Skips l.properties es := by
  induction es generalizing l moved with
  | nil =>
    refine iff_of_true ?_ trivial
    obtain ⟨rfl, -⟩ := cons.inj hnodes
    rw [length_nil, Nat.add_comm]
    rcases findLRUEntry_cases l with ⟨r, hexit, heq⟩ | ⟨l', hround, -⟩
    · rw [heq]
      cases hexit with
      | empty _ hevicted => exact absurd hevicted (by simp [hlive])
      | last => rfl
      | head => rfl
    · cases hround with
      | drop _ hevicted => exact absurd hevicted (by simp [hlive])
      | again _ _ hused => exact absurd hused (by simp [hunused])
  | cons a es ih =>
    obtain ⟨rfl, hnext⟩ := cons.inj hnodes
    have hxa : x ≠ l.headNode := fun h => hx (h ▸ mem_cons_self)
    have hxs : x ∉ es := fun h => hx (mem_cons_of_mem _ h)
    rw [length_cons, Nat.add_right_comm _ 1 n, Skips]
    rcases findLRUEntry_cases l with ⟨r, hexit, heq⟩ | ⟨l', hround, heq⟩
    · rw [heq]
      cases hexit with
      | empty hlast | last hlast =>
        rw [hlast] at hnext
        simp at hnext
      | head _ hevicted hused => simp [Ne.symm hxa, hevicted, hused]
    · rw [heq]
      cases hround with
      | @drop next rest hcons hevicted =>
        rw [ih { l with headNode := next, nextNodes := rest } moved (hcons.symm.trans hnext) hxs
          hlive hunused]
        simp [hevicted]
      | @again next rest hcons hevicted hused =>
        rw [ih (l.again next rest) (moved ++ [l.headNode])
          (by rw [nodes_again, ← hcons, hnext]; simp) hxs (by rw [properties_again hxa, hlive])
          (by rw [properties_again hxa, hunused]), or_iff_right (by simp [hevicted]),
          and_iff_right hevicted, and_iff_right hused]
        rfl

/-- An entry that was just appended is given away exactly when the list spares no other. -/
theorem getLRUEntry_appended {x : E} (hx : x ∉ l.nodes) (hlive : (l.properties x).evicted = false)
    (hunused : (l.properties x).recentlyUsed = false) :
    (l.appendEntry x).getLRUEntry.1 = some x ↔ ¬l.Spares := by
  rw [spares_iff, not_not, getLRUEntry, nodes_appendEntry, length_append, length_singleton,
    show 2 * (l.nodes.length + 1) = l.nodes.length + 1 + (l.nodes.length + 1) by omega]
  exact findLRUEntry_eq_some l.nodes _ (l.appendEntry x) [] (nodes_appendEntry l x) hx hlive hunused

end

end GeodeNative.Cache.LRUList
