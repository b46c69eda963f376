import GeodeNative.Client.ThinClientPoolQueue

/-!
# Servers in turn, excluded servers, stale connections

- `selectEndpoint_spec`: the servers are taken in turn, and those that are excluded are passed over.
  The list, rotated so that it starts at `m_server`, carries the argument.
- `getConnectionFromQueue_iff`: a request that waits takes any connection, because the filter of the
  pool is not called there.
- `cleanStaleConnections_iff`: the quota for replacements is unsigned. When it is used up it becomes
  huge, so that only one connection is removed without an attempt to replace it.
-/

set_option autoImplicit false

namespace GeodeNative.Client.Pool

open List

/-! ### Servers in turn -/

section
variable {S L : Type} [DecidableEq L] {location : S → L} {servers : List S} {server : Nat}

/-- The list from `m_server` on, and from the next value of `m_server` on. -/
theorem rotate_next (h : server < servers.length) :
    ∃ endpoint rest, servers[server]? = some endpoint ∧
      servers.rotate server = endpoint :: rest ∧
      servers.rotate (if server + 1 ≥ servers.length then 0 else server + 1) = rest ++ [endpoint] ∧
      rest.length + 1 = servers.length := by
  have hnext : servers.rotate (if server + 1 ≥ servers.length then 0 else server + 1) =
      (servers.rotate server).rotate 1 := by
    rw [rotate_rotate]
    split
    · rw [show server + 1 = servers.length by omega, rotate_length, rotate_zero]
    · rfl
  have hhead := head?_rotate h
  cases hrotate : servers.rotate server with
  | nil => exact absurd (rotate_eq_nil_iff.mp hrotate) (length_pos_iff.mp (by omega))
  | cons endpoint rest =>
    rw [hrotate] at hnext hhead
    refine ⟨endpoint, rest, hhead.symm, rfl, ?_, ?_⟩
    · rw [hnext, rotate_cons_succ, rotate_zero]
    · rw [← length_rotate servers server, hrotate, length_cons]

/-- The loop looks for the first server that is not excluded. -/
theorem selectLoop_fst (excludeServers : Finset L) {turns : Nat} (hturns : turns ≤ servers.length)
    (hserver : server < servers.length) :
    (selectLoop location servers excludeServers turns server).1 =
      ((servers.rotate server).take turns).find? fun e => location e ∉ excludeServers := by
  induction turns generalizing server with
  | zero => simp [selectLoop]
  | succ turns ih =>
    obtain ⟨endpoint, rest, hget, hrotate, hnext, hlength⟩ := rotate_next hserver
    rw [selectLoop, hget, hrotate, take_succ_cons, find?_cons]
    by_cases hexcluded : location endpoint ∈ excludeServers
    · have hinRange : (if server + 1 ≥ servers.length then 0 else server + 1) < servers.length := by
        split <;> omega
      simp only [excludeServer, hexcluded, decide_true, Bool.not_true, Bool.false_eq_true, if_false,
        not_true_eq_false, decide_false]
      rw [ih (by omega) hinRange, hnext, take_append_of_le_length (by omega)]
    · simp [excludeServer, hexcluded]

variable (server) in
/-- Calls in a row with nothing to exclude take the servers from `m_server` on. -/
theorem selections_eq {n : Nat} (hn : n ≤ servers.length) :
    selections location servers server (replicate n ∅) =
      ((servers.rotate (if server ≥ servers.length then 0 else server)).take n).map some := by
  induction n generalizing server with
  | zero => simp [selections]
  | succ n ih =>
    have hserver : (if server ≥ servers.length then 0 else server) < servers.length := by
      split <;> omega
    obtain ⟨endpoint, rest, hget, hrotate, hnext, hlength⟩ := rotate_next hserver
    have hselect : selectEndpoint location servers server ∅ =
        (some endpoint, (if server ≥ servers.length then 0 else server) + 1) := by
      rw [selectEndpoint]
      nth_rewrite 1 [← hlength]
      rw [selectLoop, hget]
      simp [excludeServer]
    rw [replicate_succ, selections, hselect, ih _ (by omega), hnext, hrotate,
      take_append_of_le_length (by omega)]
    rfl

/-- A call returns a configured server that is not excluded, and throws exactly when all are
excluded. As many calls as there are servers, with nothing to exclude, return each of them once. -/
theorem selectEndpoint_spec (location : S → L) (servers : List S) (server : Nat) :
    (∀ excludeServers : Finset L,
      ((selectEndpoint location servers server excludeServers).1 = none ↔
        ∀ endpoint ∈ servers, location endpoint ∈ excludeServers) ∧
      ∀ endpoint, (selectEndpoint location servers server excludeServers).1 = some endpoint →
        endpoint ∈ servers ∧ location endpoint ∉ excludeServers) ∧
    (selections location servers server (List.replicate servers.length ∅)).Perm
      (servers.map some) := by
  constructor
  · intro excludeServers
    have hfind : (selectEndpoint location servers server excludeServers).1 =
        (servers.rotate (if server ≥ servers.length then 0 else server)).find?
          fun e => location e ∉ excludeServers := by
      cases servers with
      | nil => simp [selectEndpoint, selectLoop]
      | cons e es =>
        rw [selectEndpoint, selectLoop_fst excludeServers (Nat.le_refl _)
          (by split <;> simp_all), take_of_length_le (by simp)]
    rw [hfind]
    refine ⟨by simp [find?_eq_none], fun endpoint h => ?_⟩
    exact ⟨mem_rotate.mp (mem_of_find?_eq_some h), by simpa using find?_some h⟩
  · rw [selections_eq server (Nat.le_refl _), take_of_length_le (by simp)]
    exact (rotate_perm _ _).map some

end

/-! ### Excluded servers -/

variable {C : Type}

theorem popUnexcluded_eq (exclude : C → Bool) (queue : List C) :
    popUnexcluded exclude queue = queue.find? fun conn => !exclude conn := by
  induction queue with
  | nil => rfl
  | cons conn queue ih => cases h : exclude conn <;> simp [popUnexcluded, h, ih]

section
variable [DecidableEq C] (create : C → Replacement C)

theorem replaceConnection_spec (q : BitVec 64) (conn : C) (st : Cleaned C) :
    let st' := replaceConnection create q conn st
    st'.tried.length = st.tried.length + (if q.toNat = 0 then 0 else 1) ∧
      st'.savelist.length + st.tried.length ≤ st.savelist.length + st'.tried.length ∧
      ∀ c ∈ st.tried ++ st.removed ++ [conn], c ∈ st'.tried ++ st'.removed := by
  have hzero : q ≤ 0 ↔ q.toNat = 0 := by simp [BitVec.le_def]
  simp only [replaceConnection, hzero, mem_append, mem_singleton]
  by_cases hq : q.toNat = 0
  · simp only [if_pos hq, mem_append, mem_singleton]
    exact ⟨rfl, Nat.le_refl _, fun _ => or_assoc.mp⟩
  · simp only [if_neg hq]
    cases create conn with
    | newConn newConn => simp +contextual [or_imp, Nat.add_left_comm, Nat.add_comm]
    | none expired => cases expired <;> simp +contextual [or_imp, Nat.add_left_comm, Nat.add_comm]

/-- The loop tries to replace all connections but the one at which the quota is 0. -/
theorem replaceLoop_spec {q : BitVec 64} {l : List C} (hl : l.length < 2 ^ 64) (st : Cleaned C) :
    let r := replaceLoop create q l st
    r.tried.length + (if q.toNat < l.length then 1 else 0) = st.tried.length + l.length ∧
      r.savelist.length + st.tried.length ≤ st.savelist.length + r.tried.length ∧
      ∀ c ∈ st.tried ++ st.removed ++ l, c ∈ r.tried ++ r.removed := by
  induction l generalizing q st with
  | nil => simp [replaceLoop]
  | cons conn l ih =>
    -- behind 0 the quota starts again at the top
    have hpred : (q - 1).toNat = if q.toNat = 0 then 2 ^ 64 - 1 else q.toNat - 1 := by
      have hlt := q.isLt
      have hone : (1 : BitVec 64).toNat = 1 := rfl
      rw [BitVec.toNat_sub, hone]
      split <;> omega
    rw [length_cons] at hl ⊢
    obtain ⟨htried, hsaved, hmem⟩ := replaceConnection_spec create q conn st
    obtain ⟨htried', hsaved', hmem'⟩ := ih (q := q - 1) (by omega)
      (replaceConnection create q conn st)
    rw [hpred] at htried'
    rw [replaceLoop]
    refine ⟨?_, by omega, fun c hc => hmem' c ?_⟩
    · by_cases hq : q.toNat = 0
      · rw [if_pos hq] at htried htried'
        split at htried' <;> split <;> omega
      · rw [if_neg hq] at htried htried'
        split at htried' <;> split <;> omega
    · rw [append_cons, mem_append] at hc
      exact mem_append.mpr (hc.imp_left (hmem c))

/-- With `m` as the minimum and `s` connections to keep: it is tried to replace at most `m - s`
connections, the others are closed and removed, and at most the larger number remains. -/
structure Trimmed (m s : Nat) (replacelist : List C) (r : Cleaned C) : Prop where
  tried : r.tried.length ≤ m - s
  removed : ∀ conn ∈ replacelist, conn ∉ r.tried → conn ∈ r.removed
  remaining : r.savelist.length ≤ max s m

/-- Stale connections are trimmed exactly when there is none, when there is at most one more than
the quota, or when there is one and the quota is 0, also by the wraparound of 32 bits. -/
theorem cleanStaleConnections_iff {m : BitVec 32} (hm : 0 ≤ m.toInt) (savelist : List C)
    {replacelist : List C} (hd : replacelist.length < 2 ^ 64) :
    Trimmed m.toNat savelist.length replacelist
        (cleanStaleConnections create m savelist replacelist) ↔
      replacelist = [] ∨ savelist.length ≤ m.toNat ∧
          replacelist.length ≤ m.toNat - savelist.length + 1 ∨
        replacelist.length = 1 ∧ savelist.length % 2 ^ 32 = m.toNat := by
  obtain ⟨htried, hsaved, hmem⟩ := replaceLoop_spec create
    (q := (m - BitVec.ofNat 32 savelist.length).signExtend 64) hd ⟨savelist, [], []⟩
  have hquota := BitVec.toNat_signExtend (m - BitVec.ofNat 32 savelist.length) (v := 64)
  rw [BitVec.toInt_eq_toNat_cond] at hm
  simp only [BitVec.toNat_setWidth, BitVec.msb_eq_decide, BitVec.toNat_sub, BitVec.toNat_ofNat,
    decide_eq_true_eq] at hquota
  rw [← length_eq_zero_iff]
  unfold cleanStaleConnections
  generalize replaceLoop create _ replacelist _ = r at *
  dsimp only [length_nil] at htried hsaved
  have hiff : r.tried.length ≤ m.toNat - savelist.length ↔ replacelist.length = 0 ∨
      savelist.length ≤ m.toNat ∧ replacelist.length ≤ m.toNat - savelist.length + 1 ∨
      replacelist.length = 1 ∧ savelist.length % 2 ^ 32 = m.toNat := by
    split at hquota <;> split at htried <;> omega
  rw [← hiff]
  refine ⟨fun h => h.tried, fun h => ⟨h, fun conn hconn hnot => ?_, by omega⟩⟩
  exact (mem_append.mp (hmem conn hconn)).resolve_left hnot

theorem cleanStaleConnections_trims :
    Trimmed (1 : BitVec 32).toNat ([] : List Nat).length [5, 6]
      (cleanStaleConnections (fun _ => .none true) 1 [] [5, 6]) :=
  (cleanStaleConnections_iff _ (by decide) [] (by decide)).mpr (by decide)

/-- The quota of one is used up at the second connection, and the third one is replaced again. -/
theorem cleanStaleConnections_wraps :
    (cleanStaleConnections .newConn 1 [] [5, 6, 7]).tried = [5, 7] := by decide

end

end GeodeNative.Client.Pool
