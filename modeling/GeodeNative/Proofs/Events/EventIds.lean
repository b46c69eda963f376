import GeodeNative.Events.EventId
import GeodeNative.Lib.Run

/-!
# Event ids are unique

A request takes `Request.advance` sequence numbers of its thread. So the numbers of a thread are
those below the sum of its requests (`taken`), and each request has a stretch of them of its own.
Threads are numbered in the order of their first requests. `History.Inv` says this of a history,
and `inv_step` and `inv_run` prove it.

A bulk request of `n` entries takes `(n - 1) mod 2^32 + 1` numbers, which is `max n 1` exactly for
`1 ≤ n ≤ 2^32` (`advance_eq_iff`). An empty bulk request takes `2^32` numbers.

`uniqueIds_iff` is the result for histories whose counters stay in range.
-/

set_option autoImplicit false

namespace GeodeNative.Events

open Lib List History

/-! ### One request -/

namespace Request

/-- The number of sequence numbers that a request takes. -/
def advance : Request → Nat
  | single => 1
  | fullValueAfterDeltaFail => 0
  | putAll size => (Request.putAll size).reserveSize.toNat + 1
  | removeAll size => (Request.removeAll size).reserveSize.toNat + 1

/-- The size of a bulk request is one that its reservation is right for. -/
def SizeFits (r : Request) : Prop :=
  ∀ size ∈ r.bulkSize, 1 ≤ size.toNat ∧ size.toNat ≤ 2 ^ 32

instance (r : Request) : Decidable r.SizeFits :=
  match r with
  | .single | .fullValueAfterDeltaFail => isTrue nofun
  | .putAll size | .removeAll size =>
    decidable_of_iff (1 ≤ size.toNat ∧ size.toNat ≤ 2 ^ 32) (by simp [SizeFits, bulkSize])

/-- A request for a single entry, with or without the full value after a delta. -/
def isSingle : Request → Bool
  | single | fullValueAfterDeltaFail => true
  | _ => false

theorem advance_le (r : Request) : r.advance ≤ 2 ^ 32 := by
  cases r with
  | single => decide
  | fullValueAfterDeltaFail => decide
  | putAll size => exact (Request.putAll size).reserveSize.isLt
  | removeAll size => exact (Request.removeAll size).reserveSize.isLt

/-- The two casts reserve the same number. -/
theorem advance_of_bulkSize {r : Request} {size : BitVec 64} (h : r.bulkSize = some size) :
    r.advance = (size.toNat + (2 ^ 32 - 1)) % 2 ^ 32 + 1 := by
  cases r with
  | single => exact absurd h nofun
  | fullValueAfterDeltaFail => exact absurd h nofun
  | putAll size' =>
    cases h
    have hone : (1 : BitVec 32).toNat = 1 := rfl
    simp only [advance, reserveSize, BitVec.toNat_sub, BitVec.toNat_setWidth, hone]
    omega
  | removeAll size' =>
    cases h
    have hone : (1 : BitVec 64).toNat = 1 := rfl
    simp only [advance, reserveSize, BitVec.toNat_sub, BitVec.toNat_setWidth, hone]
    omega

/-- A bulk request takes one number for each entry, and one without entries, exactly when its size
fits. -/
theorem advance_eq_iff {r : Request} {size : BitVec 64} (h : r.bulkSize = some size) :
    r.advance = max size.toNat 1 ↔ 1 ≤ size.toNat ∧ size.toNat ≤ 2 ^ 32 := by
  rw [advance_of_bulkSize h]
  omega

end Request

theorem add_one_add_ofNat (x : BitVec 64) (n : Nat) :
    x + 1 + BitVec.ofNat 64 n = x + BitVec.ofNat 64 (n + 1) := by
  rw [BitVec.add_assoc, BitVec.ofNat_add, BitVec.add_comm (BitVec.ofNat 64 n)]
  rfl

theorem iterate_getAndIncEidSeq (n : Nat) (e : EventIdTSS) :
    EventIdTSS.getAndIncEidSeq^[n] e =
      ⟨e.eidThrTSS, e.eidSeqTSS + BitVec.ofNat 64 n⟩ := by
  induction n generalizing e with
  | zero => simp
  | succ n ih => rw [Function.iterate_succ_apply, ih, EventIdTSS.getAndIncEidSeq, add_one_add_ofNat]

/-- The id that a request writes, and the object of its thread afterwards. -/
theorem new_request (e : EventIdTSS) (r : Request) :
    EventId.new e r.reserveSize r.isFullValue =
      (⟨e.eidThrTSS, if r.isFullValue then e.eidSeqTSS - 1 else e.eidSeqTSS⟩,
        ⟨e.eidThrTSS, e.eidSeqTSS + BitVec.ofNat 64 r.advance⟩) := by
  cases r with
  | single => simp [EventId.new, Request.reserveSize, Request.isFullValue, Request.advance,
      EventIdTSS.getAndIncEidSeq]
  | fullValueAfterDeltaFail => simp [EventId.new, Request.reserveSize, Request.isFullValue,
      Request.advance, EventIdTSS.getSeqNum]
  | putAll size =>
    simp only [EventId.new, Request.isFullValue, Bool.false_eq_true, if_false,
      iterate_getAndIncEidSeq, EventIdTSS.getAndIncEidSeq, add_one_add_ofNat]
    rfl
  | removeAll size =>
    simp only [EventId.new, Request.isFullValue, Bool.false_eq_true, if_false,
      iterate_getAndIncEidSeq, EventIdTSS.getAndIncEidSeq, add_one_add_ofNat]
    rfl

/-! ### Stretches of sequence numbers -/

/-- The request reserves the id: it has the thread id of the request, and its sequence number is one
that the request has taken. -/
def Written.Reserves {T : Type} (w : Written T) (i : EventId) : Prop :=
  i.eidThr = w.id.eidThr ∧ (i.eidSeq - w.before).toNat < (w.after - w.before).toNat

section
variable {T : Type} [DecidableEq T]

/-- The number of sequence numbers that the requests of the thread `t` take. -/
def taken (t : T) (acts : List (T × Request)) : Nat :=
  (acts.map fun a => if a.1 = t then a.2.advance else 0).sum

omit [DecidableEq T] in
/-- The threads of the log with their requests. -/
def acts (log : List (Written T)) : List (T × Request) := log.map fun w => (w.thread, w.request)

theorem taken_append (t : T) (l l' : List (T × Request)) :
    taken t (l ++ l') = taken t l + taken t l' := by
  simp [taken]

theorem taken_cons (t : T) (a : T × Request) (l : List (T × Request)) :
    taken t (a :: l) = (if a.1 = t then a.2.advance else 0) + taken t l := by
  simp [taken]

theorem taken_eq_zero {t : T} {l : List (T × Request)} (h : ∀ a ∈ l, a.1 ≠ t) : taken t l = 0 := by
  induction l with
  | nil => rfl
  | cons a l ih =>
    obtain ⟨ha, hl⟩ := forall_mem_cons.mp h
    rw [taken_cons, if_neg ha, ih hl]

/-- The request `w`, made after `pre`, has taken the numbers behind those of `pre`. -/
structure Written.IsStretch (w : Written T) (pre : List (Written T)) : Prop where
  before : w.before = BitVec.ofNat 64 (taken w.thread (acts pre))
  after : w.after = w.before + BitVec.ofNat 64 w.request.advance
  seq : w.id.eidSeq = if w.request.isFullValue then w.before - 1 else w.before

omit [DecidableEq T] in
theorem toNat_advance (w : Written T)
    (hafter : w.after = w.before + BitVec.ofNat 64 w.request.advance) :
    (w.after - w.before).toNat = w.request.advance := by
  have hle : w.request.advance ≤ 2 ^ 32 := w.request.advance_le
  rw [hafter, BitVec.add_comm, BitVec.add_sub_cancel]
  exact Nat.mod_eq_of_lt (by omega)

/-! ### Histories -/

/-- The threads are numbered in the order of their first requests. -/
structure Numbered (s : Threads T) (order : List T) : Prop where
  nodup : order.Nodup
  mem : ∀ t, t ∈ order ↔ t ∈ s.tss
  next : s.eidThrId = BitVec.ofNat 64 order.length
  thr : ∀ t e, s.tss.lookup t = some e → e.eidThrTSS = BitVec.ofNat 64 (order.idxOf t + 1)

/-- What holds of a history: the threads are numbered, a thread has taken the numbers of its
requests, and each request has a stretch of its own. -/
structure History.Inv (h : History T) : Prop where
  numbered : ∃ order, Numbered h.threads order
  made : ∀ t, t ∈ h.threads.tss → t ∈ (acts h.log).map Prod.fst
  seq : ∀ t e,
    h.threads.tss.lookup t = some e → e.eidSeqTSS = BitVec.ofNat 64 (taken t (acts h.log))
  written : ∀ pre w post, h.log = pre ++ w :: post → w.IsStretch pre ∧
    ∃ e, h.threads.tss.lookup w.thread = some e ∧ e.eidThrTSS = w.id.eidThr

theorem History.inv_init : (init : History T).Inv where
  numbered := by
    refine ⟨[], nodup_nil, fun t => ?_, rfl, fun t e he => absurd he nofun⟩
    exact iff_of_false not_mem_nil (AList.notMem_empty t)
  made t ht := absurd ht (AList.notMem_empty t)
  seq t e he := absurd he nofun
  written pre w post h := by simp [init] at h

/-- A thread has its object once it has made a request, and until then it has taken no number. -/
theorem History.Inv.eventIdTSS {h : History T} (hinv : h.Inv) (t : T) :
    ∃ e s, h.threads.eventIdTSS t = (e, s) ∧ s.tss.lookup t = some e ∧
      (∃ order, Numbered s order) ∧ e.eidSeqTSS = BitVec.ofNat 64 (taken t (acts h.log)) ∧
      ∀ t', t' ≠ t → s.tss.lookup t' = h.threads.tss.lookup t' := by
  obtain ⟨order, hnum⟩ := hinv.numbered
  unfold Threads.eventIdTSS
  split
  · rename_i e he
    exact ⟨e, h.threads, rfl, he, ⟨order, hnum⟩, hinv.seq t e he, fun _ _ => rfl⟩
  · rename_i hnone
    have hnew : t ∉ order := by
      rw [hnum.mem, ← AList.lookup_isSome, hnone]
      decide
    have hfree : ∀ a ∈ acts h.log, a.1 ≠ t := by
      intro a ha hat
      obtain ⟨w, hw, rfl⟩ := mem_map.mp ha
      obtain ⟨pre, post, hlog⟩ := append_of_mem hw
      obtain ⟨-, e, he, -⟩ := hinv.written pre w post hlog
      rw [show w.thread = t from hat, hnone] at he
      exact absurd he nofun
    refine ⟨_, _, rfl, AList.lookup_insert _, ⟨order ++ [t], ?_, ?_, ?_, ?_⟩, ?_, ?_⟩
    · exact (perm_append_singleton t order).nodup_iff.mpr
        (nodup_cons.mpr ⟨hnew, hnum.nodup⟩)
    · intro t'
      rw [mem_append, mem_singleton, hnum.mem, AList.mem_insert, or_comm]
    · rw [hnum.next, length_append]
      apply BitVec.eq_of_toNat_eq
      simp
    · intro t' e he
      by_cases heq : t' = t
      · subst heq
        rw [AList.lookup_insert, Option.some.injEq] at he
        subst he
        rw [idxOf_append_of_notMem hnew, hnum.next]
        apply BitVec.eq_of_toNat_eq
        simp
      · rw [AList.lookup_insert_ne heq] at he
        have hmem : t' ∈ order := by
          rw [hnum.mem, ← AList.lookup_isSome, he]
          rfl
        rw [idxOf_append_of_mem hmem]
        exact hnum.thr t' e he
    · rw [taken_eq_zero hfree]
      rfl
    · intro t' hne
      exact AList.lookup_insert_ne hne

/-- The thread keeps its object when it takes numbers, with the same thread id. -/
theorem Numbered.insert {s : Threads T} {order : List T} (hnum : Numbered s order) {t : T}
    {e e' : EventIdTSS} (he : s.tss.lookup t = some e) (hthr : e'.eidThrTSS = e.eidThrTSS) :
    Numbered { s with tss := s.tss.insert t e' } order where
  nodup := hnum.nodup
  mem t' := by
    rw [hnum.mem, AList.mem_insert]
    refine ⟨.inr, ?_⟩
    rintro (rfl | h)
    · rw [← AList.lookup_isSome, he]
      rfl
    · exact h
  next := hnum.next
  thr t' f hf := by
    by_cases heq : t' = t
    · subst heq
      rw [AList.lookup_insert, Option.some.injEq] at hf
      rw [← hf, hthr, hnum.thr t' e he]
    · rw [AList.lookup_insert_ne heq] at hf
      exact hnum.thr t' f hf

theorem History.acts_step (h : History T) (a : T × Request) :
    acts (h.step a).log = acts h.log ++ [a] := by
  simp [step, acts]

theorem History.inv_step {h : History T} (hinv : h.Inv) (a : T × Request) : (h.step a).Inv := by
  obtain ⟨t, r⟩ := a
  obtain ⟨e, s, htss, hlookup, ⟨order, hnum⟩, hseq, hother⟩ := hinv.eventIdTSS t
  have hwrite : h.threads.writeEventIdPart t r.reserveSize r.isFullValue =
      (⟨e.eidThrTSS, if r.isFullValue then e.eidSeqTSS - 1 else e.eidSeqTSS⟩,
        { s with
          tss := s.tss.insert t ⟨e.eidThrTSS, e.eidSeqTSS + BitVec.ofNat 64 r.advance⟩ }) := by
    simp only [Threads.writeEventIdPart, htss, new_request]
  -- the object of the thread afterwards
  have hafter : (({ s with
      tss := s.tss.insert t ⟨e.eidThrTSS, e.eidSeqTSS + BitVec.ofNat 64 r.advance⟩ } :
        Threads T).eventIdTSS t).1 = ⟨e.eidThrTSS, e.eidSeqTSS + BitVec.ofNat 64 r.advance⟩ := by
    simp only [Threads.eventIdTSS, AList.lookup_insert]
  have hstep : h.step (t, r) = ⟨{ s with
      tss := s.tss.insert t ⟨e.eidThrTSS, e.eidSeqTSS + BitVec.ofNat 64 r.advance⟩ },
      h.log ++ [⟨t, r, ⟨e.eidThrTSS, if r.isFullValue then e.eidSeqTSS - 1 else e.eidSeqTSS⟩,
        e.eidSeqTSS, e.eidSeqTSS + BitVec.ofNat 64 r.advance⟩]⟩ := by
    simp only [step, hwrite, hafter, htss]
  refine ⟨?_, ?_, ?_, ?_⟩
  · rw [hstep]
    exact ⟨order, hnum.insert hlookup rfl⟩
  · intro t' ht'
    rw [hstep, AList.mem_insert] at ht'
    rw [acts_step, map_append, mem_append]
    by_cases heq : t' = t
    · exact .inr (by rw [heq]; exact mem_singleton_self t)
    · refine .inl (hinv.made t' ?_)
      rw [← AList.lookup_isSome, ← hother t' heq, AList.lookup_isSome]
      exact ht'.resolve_left heq
  · intro t' f hf
    rw [acts_step, taken_append, taken_cons]
    rw [hstep] at hf
    by_cases heq : t' = t
    · subst heq
      rw [AList.lookup_insert, Option.some.injEq] at hf
      rw [← hf, hseq]
      apply BitVec.eq_of_toNat_eq
      simp [taken]
    · rw [AList.lookup_insert_ne heq, hother t' heq] at hf
      rw [if_neg (Ne.symm heq)]
      exact hinv.seq t' f hf
  · intro pre w post hlog
    rw [hstep] at hlog ⊢
    rcases eq_nil_or_concat' post with rfl | ⟨post', w', rfl⟩
    · -- the new request
      obtain ⟨rfl, hw⟩ := append_inj' hlog rfl
      cases hw
      exact ⟨⟨hseq, rfl, rfl⟩, _, AList.lookup_insert _, rfl⟩
    · rw [← cons_append, ← append_assoc] at hlog
      have hold : h.log = pre ++ w :: post' := (append_inj' hlog rfl).1
      obtain ⟨hstretch, f, hf, hfthr⟩ := hinv.written pre w post' hold
      refine ⟨hstretch, ?_⟩
      by_cases heq : w.thread = t
      · refine ⟨_, by rw [heq]; exact AList.lookup_insert _, ?_⟩
        -- an old request of this thread has its thread id
        have hs : s.tss.lookup t = some f := by
          have hsame : h.threads.eventIdTSS t = (f, h.threads) := by
            rw [heq] at hf
            simp only [Threads.eventIdTSS, hf]
          rw [hsame, Prod.mk.injEq] at htss
          rw [hlookup, htss.1]
        rw [hs, Option.some.injEq] at hlookup
        rw [← hfthr, hlookup]
      · exact ⟨f, by rw [AList.lookup_insert_ne heq, hother _ heq]; exact hf, hfthr⟩

theorem History.inv_run (l : List (T × Request)) : (run step (init : History T) l).Inv :=
  run_keeps (I := History.Inv) (fun _ a hinv => inv_step hinv a) inv_init

theorem History.acts_run (h : History T) (l : List (T × Request)) :
    acts (run step h l).log = acts h.log ++ l := by
  induction l generalizing h with
  | nil => simp
  | cons a l ih => rw [run_cons, ih, acts_step, append_assoc, singleton_append]

/-! ### Uniqueness -/

/-- No two requests of the log reserve the same id, the id that a request writes is the first one it
reserves, a bulk request takes one number for each entry, and at least one, and the full value after
a failed delta has the id of the request for a single entry that its thread made just before. -/
structure UniqueIds (log : List (Written T)) : Prop where
  disjoint : ∀ pre w middle w' post, log = pre ++ w :: middle ++ w' :: post → ∀ i,
    w.Reserves i → ¬w'.Reserves i
  own : ∀ w ∈ log, w.request ≠ .fullValueAfterDeltaFail → w.id.eidSeq = w.before ∧ w.Reserves w.id
  bulk : ∀ w ∈ log, ∀ size, w.request.bulkSize = some size →
    (w.after - w.before).toNat = max size.toNat 1
  fullValue : ∀ pre w middle w' post, log = pre ++ w :: middle ++ w' :: post →
    w.thread = w'.thread → (∀ m ∈ middle, m.thread ≠ w.thread) → w.request.isSingle = true →
    w'.request = .fullValueAfterDeltaFail → w'.id = w.id

/-- The counters of the requests stay in the range of `int64_t`. -/
structure InRange (l : List (T × Request)) : Prop where
  threads : (l.map Prod.fst).dedup.length < 2 ^ 63
  taken : ∀ t ∈ l.map Prod.fst, taken t l < 2 ^ 63

namespace History.Inv

variable {h : History T}

theorem thr_inj (hinv : h.Inv) (hthreads : ((acts h.log).map Prod.fst).dedup.length < 2 ^ 63)
    {t t' : T} {e e' : EventIdTSS} (he : h.threads.tss.lookup t = some e)
    (he' : h.threads.tss.lookup t' = some e') (hthr : e.eidThrTSS = e'.eidThrTSS) : t = t' := by
  obtain ⟨order, hnum⟩ := hinv.numbered
  have hmem : ∀ {t e}, h.threads.tss.lookup t = some e → t ∈ order := by
    intro t e ht
    rw [hnum.mem, ← AList.lookup_isSome, ht]
    rfl
  have hlen : order.length < 2 ^ 63 := by
    have hsub : order ⊆ ((acts h.log).map Prod.fst).dedup := by
      intro x hx
      rw [mem_dedup]
      exact hinv.made x ((hnum.mem x).mp hx)
    exact Nat.lt_of_le_of_lt (hnum.nodup.subperm hsub).length_le hthreads
  have hlt : order.idxOf t < order.length := idxOf_lt_length_iff.mpr (hmem he)
  have hlt' : order.idxOf t' < order.length := idxOf_lt_length_iff.mpr (hmem he')
  rw [hnum.thr t e he, hnum.thr t' e' he', ← BitVec.toNat_inj, BitVec.toNat_ofNat,
    BitVec.toNat_ofNat, Nat.mod_eq_of_lt (by omega), Nat.mod_eq_of_lt (by omega)] at hthr
  exact (idxOf_inj (hmem he)).mp (by omega)

variable {pre middle post : List (Written T)}

theorem disjoint (hinv : h.Inv) (hrange : InRange (acts h.log)) {w w' : Written T}
    (hlog : h.log = pre ++ w :: middle ++ w' :: post) (i : EventId) (hi : w.Reserves i) :
    ¬w'.Reserves i := by
  intro hi'
  have hlog' : h.log = pre ++ w :: (middle ++ w' :: post) := by simp [hlog]
  obtain ⟨hw, e, he, hthr⟩ := hinv.written pre w _ hlog'
  obtain ⟨hw', e', he', hthr'⟩ := hinv.written (pre ++ w :: middle) w' post hlog
  have hsame : w.thread = w'.thread :=
    hinv.thr_inj hrange.threads he he' (by rw [hthr, hthr', ← hi.1, ← hi'.1])
  -- the numbers of `w'` are behind those of `w`
  have hsplit : acts h.log = acts pre ++ (w.thread, w.request) :: (acts middle ++
      (w'.thread, w'.request) :: acts post) := by simp [hlog, acts]
  have hbefore : taken w'.thread (acts (pre ++ w :: middle)) =
      taken w.thread (acts pre) + (w.request.advance + taken w.thread (acts middle)) := by
    rw [show acts (pre ++ w :: middle) = acts pre ++ (w.thread, w.request) :: acts middle by
      simp [acts], taken_append, taken_cons, ← hsame, if_pos rfl]
  have htotal : taken w.thread (acts h.log) < 2 ^ 63 := by
    refine hrange.taken w.thread ?_
    rw [hsplit]
    simp
  rw [hsplit, taken_append, taken_cons, if_pos rfl, taken_append, taken_cons, if_pos hsame.symm]
    at htotal
  dsimp only at htotal
  have hseq := hi.2
  have hseq' := hi'.2
  rw [toNat_advance w hw.after, hw.before] at hseq
  rw [toNat_advance w' hw'.after, hw'.before, hbefore] at hseq'
  -- the second stretch lies behind the first, and the counter does not come round
  simp only [BitVec.toNat_sub, BitVec.toNat_ofNat] at hseq hseq'
  omega

/-- The full value after a failed delta has the id of the request before it. -/
theorem fullValue (hinv : h.Inv) {w w' : Written T}
    (hlog : h.log = pre ++ w :: middle ++ w' :: post) (hthread : w.thread = w'.thread)
    (hmiddle : ∀ m ∈ middle, m.thread ≠ w.thread) (hsingle : w.request.isSingle = true)
    (hfull : w'.request = .fullValueAfterDeltaFail) : w'.id = w.id := by
  have hlog' : h.log = pre ++ w :: (middle ++ w' :: post) := by simp [hlog]
  obtain ⟨hw, e, he, hthr⟩ := hinv.written pre w _ hlog'
  obtain ⟨hw', e', he', hthr'⟩ := hinv.written (pre ++ w :: middle) w' post hlog
  have hids : w'.id.eidThr = w.id.eidThr := by
    rw [← hthread, he, Option.some.injEq] at he'
    rw [← hthr, ← hthr', he']
  have hbefore : w'.before = w.after := by
    have hnone : taken w.thread (acts middle) = 0 := by
      refine taken_eq_zero ?_
      intro a ha
      obtain ⟨m, hm, rfl⟩ := mem_map.mp ha
      exact hmiddle m hm
    rw [hw'.before, hw.after, hw.before, ← hthread,
      show acts (pre ++ w :: middle) = acts pre ++ (w.thread, w.request) :: acts middle by
        simp [acts], taken_append, taken_cons, if_pos rfl, hnone, BitVec.ofNat_add]
    rfl
  have hseq : w'.id.eidSeq = w.id.eidSeq := by
    have hisFull : w'.request.isFullValue = true := by rw [hfull]; rfl
    rw [hw'.seq, hisFull, hbefore, hw.after, hw.seq]
    cases hreq : w.request with
    | single => exact BitVec.add_sub_cancel w.before 1
    | fullValueAfterDeltaFail => simp [Request.advance, Request.isFullValue]
    | putAll size => rw [hreq] at hsingle; exact absurd hsingle nofun
    | removeAll size => rw [hreq] at hsingle; exact absurd hsingle nofun
  cases hid : w.id
  cases hid' : w'.id
  simp only [hid, hid'] at hids hseq
  rw [hids, hseq]

theorem own (hinv : h.Inv) {w : Written T} (hw : w ∈ h.log)
    (hnot : w.request ≠ .fullValueAfterDeltaFail) : w.id.eidSeq = w.before ∧ w.Reserves w.id := by
  obtain ⟨pre, post, hlog⟩ := append_of_mem hw
  obtain ⟨hstretch, -⟩ := hinv.written pre w post hlog
  have hfull : w.request.isFullValue = false := by
    cases hreq : w.request with
    | fullValueAfterDeltaFail => exact absurd hreq hnot
    | single => rfl
    | putAll size => rfl
    | removeAll size => rfl
  have hpos : 0 < w.request.advance := by
    cases hreq : w.request with
    | fullValueAfterDeltaFail => exact absurd hreq hnot
    | single => exact Nat.one_pos
    | putAll size => exact Nat.succ_pos _
    | removeAll size => exact Nat.succ_pos _
  have hseq : w.id.eidSeq = w.before := by rw [hstretch.seq, hfull, if_neg Bool.false_ne_true]
  refine ⟨hseq, rfl, ?_⟩
  rw [hseq, toNat_advance w hstretch.after, BitVec.sub_self]
  exact hpos

/-- The number of sequence numbers that a request takes, seen from the log. -/
theorem advance_eq (hinv : h.Inv) {w : Written T} (hw : w ∈ h.log) :
    (w.after - w.before).toNat = w.request.advance := by
  obtain ⟨pre, post, hlog⟩ := append_of_mem hw
  exact toNat_advance w (hinv.written pre w post hlog).1.after

end History.Inv

/-- In a history whose counters stay in range, the ids are unique and no number is wasted exactly
when every bulk request has between `1` and `2^32` entries. -/
theorem uniqueIds_iff (l : List (T × Request)) (hrange : InRange l) :
    UniqueIds (run History.step History.init l).log ↔ ∀ a ∈ l, a.2.SizeFits := by
  have hinv := inv_run l
  have hacts : acts (run step (init : History T) l).log = l :=
    acts_run init l
  constructor
  · intro h a ha size hsize
    rw [← hacts] at ha
    obtain ⟨w, hw, rfl⟩ := mem_map.mp ha
    have hbulk := h.bulk w hw size hsize
    rw [hinv.advance_eq hw] at hbulk
    exact (Request.advance_eq_iff hsize).mp hbulk
  · intro h
    rw [← hacts] at hrange
    refine ⟨?_, ?_, ?_, ?_⟩
    · intro pre w middle w' post hlog i hi
      exact hinv.disjoint hrange hlog i hi
    · intro w hw hnot
      exact hinv.own hw hnot
    · intro w hw size hsize
      rw [hinv.advance_eq hw]
      refine (Request.advance_eq_iff hsize).mpr (h (w.thread, w.request) ?_ size hsize)
      rw [← hacts]
      exact mem_map.mpr ⟨w, hw, rfl⟩
    · intro pre w middle w' post hlog hthread hmiddle hsingle hfull
      exact hinv.fullValue hlog hthread hmiddle hsingle hfull

/-- Two threads make a put, a bulk put of three entries, and a put whose delta fails. -/
theorem uniqueIds_two_threads :
    UniqueIds (run History.step (History.init : History Nat)
      [(0, .single), (1, .putAll 3), (0, .fullValueAfterDeltaFail), (1, .single)]).log :=
  (uniqueIds_iff _ ⟨by decide, by decide⟩).mpr (by decide +kernel)

/-- A bulk put without entries takes `2^32` sequence numbers. -/
theorem putAll_empty_wastes :
    ¬UniqueIds (run History.step (History.init : History Nat) [(0, .putAll 0)]).log := by
  intro h
  have hinv := inv_run [((0 : Nat), Request.putAll 0)]
  generalize hlog : (run step (init : History Nat) [(0, .putAll 0)]).log = log at h
  have hacts : acts log = [(0, .putAll 0)] := by rw [← hlog]; exact acts_run init _
  obtain ⟨w, hw, hw'⟩ : ∃ w ∈ log, (w.thread, w.request) = ((0 : Nat), Request.putAll 0) := by
    have hmem : ((0 : Nat), Request.putAll 0) ∈ acts log := by
      rw [hacts]
      exact mem_singleton_self _
    exact mem_map.mp hmem
  have hreq : w.request = .putAll 0 := congrArg Prod.snd hw'
  have hbulk := h.bulk w hw 0 (by rw [hreq]; rfl)
  rw [hinv.advance_eq (hlog ▸ hw), hreq] at hbulk
  exact absurd hbulk (by decide)

end

end GeodeNative.Events
