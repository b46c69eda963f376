import GeodeNative.Lib.Run
import GeodeNative.Region.InterestLists

/-!
# The interest after a failover

The interest of a client is the set of its registrations: what is registered and not unregistered
since (`Call.onServer`). After a failover the new server gets what `registerKeys(endpoint)` sends.
The results say when that is the same set.

It need not be the same. The keys of a category are sent with one policy, the one of the node that
comes last. An expression is not recorded while `.*` is registered with the same durability, and
`.*` clears what is recorded in its category. A key is only removed by the pointer with which it
was registered. `Recorded` is the condition on a call that rules this out. `Kept` is the invariant
of the calls with this condition, and without it the sets differ after the call, so the condition
is exact (`failover_iff`).
-/

set_option autoImplicit false

namespace GeodeNative.Region.Interest

open Lib UnorderedMap List InterestLists Function

/-- What an interest is in. -/
inductive Target (K : Type) where
  | key (key : K)
  | regex (regex : String)

/-- One registration. Keys are compared by `operator==`. -/
structure Registration (K : Type) where
  target : Target K
  category : Category
  interestPolicy : InterestResultPolicy

/-- The maps of the client, and the registrations that a server should have. -/
structure State (P K : Type) where
  lists : InterestLists P
  server : Set (Registration K)

variable {P K : Type} (deref : P → K)

/-- The registrations after a call. -/
def Call.onServer (server : Set (Registration K)) : Call P → Set (Registration K)
  | .registerKeys keys c interestPolicy _ =>
    server ∪ { r | ∃ p ∈ keys, r = ⟨.key (deref p), c, interestPolicy⟩ }
  | .unregisterKeys keys _ => { r ∈ server | ∀ p ∈ keys, r.target ≠ .key (deref p) }
  | .registerRegex regex c interestPolicy _ => server ∪ {⟨.regex regex, c, interestPolicy⟩}
  | .unregisterRegex regex _ => { r ∈ server | r.target ≠ .regex regex }

/-- The registrations that a request makes. -/
def Request.registrations : Request P → Set (Registration K)
  | .keys keysVec c interestPolicy => { r | ∃ p ∈ keysVec, r = ⟨.key (deref p), c, interestPolicy⟩ }
  | .regex expression c interestPolicy => {⟨.regex expression, c, interestPolicy⟩}

/-- The registrations that a new server gets. -/
def InterestLists.replayed (orders : Orders P) (l : InterestLists P) : Set (Registration K) :=
  { r | ∃ request ∈ l.registerKeys orders, r ∈ request.registrations deref }

/-! ## What is sent -/

section Replay
variable {deref} {orders : Orders P} {l : InterestLists P}

theorem mem_allCategories (c : Category) : c ∈ allCategories := by
  obtain ⟨isDurable, receiveValues⟩ := c
  cases isDurable <;> cases receiveValues <;> decide

/-- The policy with which the keys of a category are sent. -/
def sentPolicy (orders : Orders P) (l : InterestLists P) (c : Category) : InterestResultPolicy :=
  (copyInterestList (orders.keys (l.interestList c)).1).2

/-- What is sent: the expressions with their own policies, and the keys of a category with one
policy. -/
theorem mem_replayed {r : Registration K} : r ∈ l.replayed deref orders ↔
    (∃ c, ∃ node ∈ l.interestListRegex c, r = ⟨.regex node.1, c, node.2⟩) ∨
      ∃ c, ∃ node ∈ l.interestList c, r = ⟨.key (deref node.1), c, sentPolicy orders l c⟩ := by
  have hregex := fun c => (orders.regex (l.interestListRegex c)).2
  have hkeys := fun c => (orders.keys (l.interestList c)).2
  constructor
  · rintro ⟨request, hrequest, hmem⟩
    obtain hrequest | hrequest := mem_append.mp hrequest
    · obtain ⟨c, -, hrequest⟩ := mem_flatMap.mp hrequest
      obtain ⟨node, hnode, rfl⟩ := mem_map.mp hrequest
      exact .inl ⟨c, node, (hregex c).mem_iff.mp hnode, hmem⟩
    · obtain ⟨c, -, hrequest⟩ := mem_flatMap.mp hrequest
      unfold registerStoredKeys at hrequest
      dsimp only at hrequest
      split at hrequest
      · cases hrequest
      · cases mem_singleton.mp hrequest
        obtain ⟨p, hp, rfl⟩ := hmem
        obtain ⟨node, hnode, rfl⟩ := mem_map.mp hp
        exact .inr ⟨c, node, (hkeys c).mem_iff.mp hnode, rfl⟩
  · rintro (⟨c, node, hnode, rfl⟩ | ⟨c, node, hnode, rfl⟩)
    · exact ⟨_, mem_append_left _ (mem_flatMap.mpr ⟨c, mem_allCategories c,
        mem_map_of_mem ((hregex c).mem_iff.mpr hnode)⟩), rfl⟩
    · have hin : node.1 ∈ (copyInterestList (orders.keys (l.interestList c)).1).1 :=
        mem_map_of_mem ((hkeys c).mem_iff.mpr hnode)
      refine ⟨.keys _ c (sentPolicy orders l c),
        mem_append_right _ (mem_flatMap.mpr ⟨c, mem_allCategories c, ?_⟩),
        node.1, hin, rfl⟩
      unfold registerStoredKeys
      dsimp only
      rw [if_neg (ne_nil_of_mem hin)]
      exact mem_singleton_self _

theorem regex_mem_replayed (regex : String) (c : Category)
    (interestPolicy : InterestResultPolicy) :
    ⟨.regex regex, c, interestPolicy⟩ ∈ l.replayed deref orders ↔
      (regex, interestPolicy) ∈ l.interestListRegex c := by
  rw [mem_replayed]
  constructor
  · rintro (⟨c, node, hnode, heq⟩ | ⟨c, node, -, heq⟩) <;> cases heq
    exact hnode
  · exact fun hnode => .inl ⟨c, _, hnode, rfl⟩

theorem key_mem_replayed (k : K) (c : Category) (interestPolicy : InterestResultPolicy) :
    ⟨.key k, c, interestPolicy⟩ ∈ l.replayed deref orders ↔
      interestPolicy = sentPolicy orders l c ∧ ∃ node ∈ l.interestList c, deref node.1 = k := by
  rw [mem_replayed]
  constructor
  · rintro (⟨c, node, -, heq⟩ | ⟨c, node, hnode, heq⟩) <;> cases heq
    exact ⟨rfl, node, hnode, rfl⟩
  · rintro ⟨rfl, node, hnode, rfl⟩
    exact .inr ⟨c, node, hnode, rfl⟩

theorem sentPolicy_eq {c : Category} {node : P × InterestResultPolicy}
    (hnode : node ∈ l.interestList c) (huniform : ∀ a ∈ l.interestList c, a.2 = node.2) :
    sentPolicy orders l c = node.2 := by
  have hperm := (orders.keys (l.interestList c)).2
  have hne : (orders.keys (l.interestList c)).1 ≠ [] :=
    ne_nil_of_mem (hperm.mem_iff.mpr hnode)
  unfold sentPolicy copyInterestList
  rw [getLast?_eq_getLast_of_ne_nil hne]
  exact huniform _ (hperm.mem_iff.mp (getLast_mem hne))

end Replay

/-! ## The maps after a call -/

theorem addRegex_interestListRegex (l : InterestLists P) (regex : String) (c : Category)
    (interestPolicy : InterestResultPolicy) :
    (l.addRegex regex c interestPolicy).interestListRegex =
      update l.interestListRegex c
        (if regex = ".*" then [(regex, interestPolicy)]
        else emplace (KeyEqual.ofEq String) (l.interestListRegex c) regex interestPolicy) := by
  unfold addRegex
  split <;> rfl

section Maps
variable [DecidableEq P] {m : List (P × InterestResultPolicy)}

theorem distinct_insertKeys (keys : List P) (interestPolicy : InterestResultPolicy)
    (h : Distinct (KeyEqual.ofEq P) m) :
    Distinct (KeyEqual.ofEq P) (insertKeys m keys interestPolicy) := by
  induction keys generalizing m with
  | nil => exact h
  | cons key keys ih => exact ih (h.emplace_ofEq key interestPolicy)

theorem mem_insertKeys {keys : List P} (interestPolicy : InterestResultPolicy)
    (node : P × InterestResultPolicy) :
    node ∈ insertKeys m keys interestPolicy ↔
      node ∈ m ∨ node.1 ∈ keys ∧ node.1 ∉ m.map (·.1) ∧ node.2 = interestPolicy := by
  induction keys generalizing m with
  | nil => simp [insertKeys]
  | cons key keys ih =>
    -- the first key is added, then the others to what there is by then
    have hfirst : insertKeys m (key :: keys) interestPolicy =
        insertKeys (emplace (KeyEqual.ofEq P) m key interestPolicy) keys interestPolicy := rfl
    rw [hfirst, ih, mem_emplace_ofEq, mem_keys_emplace_ofEq]
    by_cases hkey : node.1 = key
    · simp only [hkey, or_true, not_true_eq_false, false_and, and_false, or_false, mem_cons,
        true_or, true_and, Prod.ext_iff]
    · simp [hkey, Prod.ext_iff]

theorem distinct_eraseKeys (keys : List P) (h : Distinct (KeyEqual.ofEq P) m) :
    Distinct (KeyEqual.ofEq P) (eraseKeys m keys) := by
  induction keys generalizing m with
  | nil => exact h
  | cons key keys ih => exact ih (h.erase key)

theorem mem_eraseKeys {keys : List P} (h : Distinct (KeyEqual.ofEq P) m)
    (node : P × InterestResultPolicy) : node ∈ eraseKeys m keys ↔ node ∈ m ∧ node.1 ∉ keys := by
  induction keys generalizing m with
  | nil => simp [eraseKeys]
  | cons key keys ih =>
    have hfirst : eraseKeys m (key :: keys) = eraseKeys (erase (KeyEqual.ofEq P) m key) keys := rfl
    rw [hfirst, ih (h.erase key), mem_erase_ofEq h, mem_cons, not_or, and_assoc]

end Maps

/-! ## The invariant -/

/-- The maps have the registration. -/
def InterestLists.Stores (l : InterestLists P) (r : Registration K) : Prop :=
  match r.target with
  | .key k => ∃ node ∈ l.interestList r.category, deref node.1 = k ∧ node.2 = r.interestPolicy
  | .regex regex => (regex, r.interestPolicy) ∈ l.interestListRegex r.category

/-- The maps have the registrations, and one policy for the keys of each category. -/
structure Kept [DecidableEq P] (s : State P K) : Prop where
  keysDistinct : ∀ c, Distinct (KeyEqual.ofEq P) (s.lists.interestList c)
  regexDistinct : ∀ c, Distinct (KeyEqual.ofEq String) (s.lists.interestListRegex c)
  stores : ∀ r, r ∈ s.server ↔ s.lists.Stores deref r
  uniform : ∀ c, ∀ a ∈ s.lists.interestList c, ∀ b ∈ s.lists.interestList c, a.2 = b.2

/-- A new server gets exactly the registrations. -/
def SameAfterFailover (orders : Orders P) (s : State P K) : Prop :=
  s.lists.replayed deref orders = s.server

section Kept
variable [DecidableEq P] {deref} {orders : Orders P} {s : State P K}

theorem Kept.key_mem (h : Kept deref s) {c : Category} {node : P × InterestResultPolicy}
    (hnode : node ∈ s.lists.interestList c) : ⟨.key (deref node.1), c, node.2⟩ ∈ s.server :=
  (h.stores _).mpr ⟨node, hnode, rfl, rfl⟩

theorem Kept.regex_mem (h : Kept deref s) {c : Category} {node : String × InterestResultPolicy}
    (hnode : node ∈ s.lists.interestListRegex c) : ⟨.regex node.1, c, node.2⟩ ∈ s.server :=
  (h.stores _).mpr hnode

theorem Kept.same (h : Kept deref s) : SameAfterFailover deref orders s := by
  ext ⟨target, c, interestPolicy⟩
  rw [h.stores]
  cases target with
  | regex regex => exact regex_mem_replayed regex c interestPolicy
  | key k =>
    rw [key_mem_replayed]
    constructor
    · rintro ⟨rfl, node, hnode, rfl⟩
      exact ⟨node, hnode, rfl, (sentPolicy_eq hnode fun a ha => h.uniform c a ha node hnode).symm⟩
    · rintro ⟨node, hnode, rfl, hpolicy⟩
      have hsent : sentPolicy orders s.lists c = node.2 :=
        sentPolicy_eq hnode fun a ha => h.uniform c a ha node hnode
      exact ⟨hpolicy.symm.trans hsent.symm, node, hnode, rfl⟩

end Kept

/-! ## One call -/

section Step
variable [DecidableEq P]

def State.step (s : State P K) (call : Call P) : State P K :=
  ⟨(call.result s.lists).2, call.onServer deref s.server⟩

/-- The call returns without an error. -/
def Successful (s : State P K) (call : Call P) : Prop := (call.result s.lists).1 = .noErr

/-- The call registers nothing that is registered. -/
def Fresh (s : State P K) : Call P → Prop
  | .registerKeys keys _ _ _ => ∀ p ∈ keys, ∀ r ∈ s.server, r.target ≠ .key (deref p)
  | .registerRegex regex _ _ _ => ∀ r ∈ s.server, r.target ≠ .regex regex
  | _ => True

/-- The call is recorded in the maps as the server has it. -/
def Recorded (s : State P K) : Call P → Prop
  | .registerKeys keys c interestPolicy response =>
    keys ≠ [] → response.fromSecondary = false ∧
      ∀ node ∈ s.lists.interestList c, node.2 = interestPolicy
  | .unregisterKeys keys _ =>
    ∀ c, ∀ node ∈ s.lists.interestList c, (∃ p ∈ keys, deref p = deref node.1) → node.1 ∈ keys
  | .registerRegex regex c _ response =>
    response.fromSecondary = false ∧
      (∀ receiveValues, ∀ node ∈ s.lists.interestListRegex ⟨c.isDurable, receiveValues⟩,
        node.1 ≠ ".*") ∧
      (regex = ".*" → s.lists.interestList c = [] ∧ s.lists.interestListRegex c = [])
  | .unregisterRegex _ _ => True

variable {deref} {s : State P K} {keys : List P} {regex : String} {c : Category}
  {interestPolicy : InterestResultPolicy} {response : Response}

/-! ### The maps after a successful call -/

theorem registerKeys_lists (hkeys : keys ≠ [])
    (h : Successful s (.registerKeys keys c interestPolicy response)) :
    ((Call.registerKeys keys c interestPolicy response).result s.lists).2 =
      if response.fromSecondary then s.lists else s.lists.addKeys keys c interestPolicy := by
  have herr : response.err = .noErr := by
    simp only [Successful, Call.result, registerKeysNoThrow, if_neg hkeys] at h
    split at h <;> exact h
  simp only [Call.result, registerKeysNoThrow, if_neg hkeys, herr,
    true_and]
  cases response.fromSecondary <;> rfl

theorem unregisterKeys_lists (h : Successful s (.unregisterKeys keys response)) :
    ((Call.unregisterKeys keys response).result s.lists).2 =
      { s.lists with interestList := fun c => eraseKeys (s.lists.interestList c) keys } := by
  simp only [Successful, Call.result, unregisterKeysNoThrow] at h
  simp only [Call.result, unregisterKeysNoThrow]
  split at h
  · next hkeys =>
    rw [if_pos hkeys, hkeys]
    rfl
  · next hkeys =>
    rw [if_neg hkeys]
    split at h
    · cases h
    · next hsome =>
      rw [if_neg hsome]
      split at h
      · next herr => rw [if_pos herr]
      · next herr => exact absurd h herr

/-- The client finds the expression, or `.*`, in a map of the same durability. -/
def InterestLists.covers (l : InterestLists P) (regex : String) (c : Category) : Bool :=
  isRegexRegistered (l.interestListRegex ⟨c.isDurable, true⟩) regex (regex = ".*") ||
    isRegexRegistered (l.interestListRegex ⟨c.isDurable, false⟩) regex (regex = ".*")

theorem registerRegex_lists (h : Successful s (.registerRegex regex c interestPolicy response)) :
    ((Call.registerRegex regex c interestPolicy response).result s.lists).2 =
      if s.lists.covers regex c || response.fromSecondary then s.lists
      else s.lists.addRegex regex c interestPolicy := by
  simp only [Successful, Call.result, registerRegexNoThrow] at h
  simp only [Call.result, registerRegexNoThrow]
  unfold covers
  split at h
  · next hcovers =>
    rw [if_pos hcovers, hcovers]
    rfl
  · next hcovers =>
    rw [if_neg hcovers, Bool.eq_false_iff.mpr hcovers]
    have herr : response.err = .noErr := by
      split at h <;> exact h
    cases hsecondary : response.fromSecondary with
    | false => simp [herr]
    | true => simp

theorem unregisterRegex_lists (h : Successful s (.unregisterRegex regex response)) :
    ((Call.unregisterRegex regex response).result s.lists).2 = s.lists.clearRegex regex := by
  simp only [Successful, Call.result, unregisterRegexNoThrow] at h
  simp only [Call.result, unregisterRegexNoThrow]
  split at h
  · next hfind =>
    rw [if_pos hfind]
    split at h
    · next herr => rw [if_pos herr]
    · next herr => exact absurd h herr
  · next hfind => exact absurd h hfind

variable {call : Call P}

theorem step_eq {l : InterestLists P} (h : (call.result s.lists).2 = l) :
    s.step deref call = ⟨l, call.onServer deref s.server⟩ := by
  subst h
  rfl

/-! ### Calls with the condition keep the invariant -/

variable (h : Kept deref s)
include h

theorem Kept.mem_addKeys (hfresh : Fresh deref s (.registerKeys keys c interestPolicy response))
    (c' : Category) (node : P × InterestResultPolicy) :
    node ∈ (s.lists.addKeys keys c interestPolicy).interestList c' ↔
      node ∈ s.lists.interestList c' ∨ c' = c ∧ node.1 ∈ keys ∧ node.2 = interestPolicy := by
  unfold addKeys
  dsimp only
  by_cases hc : c' = c
  · subst hc
    rw [update_self, mem_insertKeys]
    refine or_congr_right ?_
    constructor
    · rintro ⟨hin, -, heq⟩
      exact ⟨rfl, hin, heq⟩
    · rintro ⟨-, hin, heq⟩
      refine ⟨hin, fun hp => ?_, heq⟩
      -- a fresh pointer has no node
      obtain ⟨old, hold, hsame⟩ := mem_map.mp hp
      exact hfresh node.1 hin _ (h.key_mem hold) (by rw [hsame])
  · rw [update_of_ne hc]
    simp [hc]

theorem Kept.registerKeys (hfresh : Fresh deref s (.registerKeys keys c interestPolicy response))
    (hsuccess : Successful s (.registerKeys keys c interestPolicy response))
    (hrecorded : Recorded deref s (.registerKeys keys c interestPolicy response)) :
    Kept deref (s.step deref (.registerKeys keys c interestPolicy response)) := by
  by_cases hkeys : keys = []
  · -- nothing is sent
    subst hkeys
    have hstep : s.step deref (.registerKeys [] c interestPolicy response) = s := by
      simp [State.step, Call.result, Call.onServer, registerKeysNoThrow]
    rw [hstep]
    exact h
  obtain ⟨hprimary, hpolicy⟩ := hrecorded hkeys
  have hlists := registerKeys_lists hkeys hsuccess
  rw [hprimary] at hlists
  have hnode := h.mem_addKeys hfresh
  rw [step_eq hlists]
  refine ⟨?_, h.regexDistinct, ?_, ?_⟩
  · exact (forall_update_iff _ fun _ => Distinct (KeyEqual.ofEq P)).mpr
      ⟨distinct_insertKeys keys interestPolicy (h.keysDistinct c), fun c' _ => h.keysDistinct c'⟩
  · rintro ⟨target, c', policy⟩
    unfold Call.onServer
    rw [Set.mem_union, h.stores]
    cases target with
    | regex regex =>
      refine or_iff_left ?_
      rintro ⟨p, -, heq⟩
      cases heq
    | key k =>
      constructor
      · rintro (⟨node, hin, hk, hp⟩ | ⟨p, hp, heq⟩)
        · exact ⟨node, (hnode c' node).mpr (.inl hin), hk, hp⟩
        · cases heq
          exact ⟨(p, interestPolicy), (hnode c _).mpr (.inr ⟨rfl, hp, rfl⟩), rfl, rfl⟩
      · rintro ⟨node, hin, rfl, rfl⟩
        obtain hold | ⟨rfl, hp, hpol⟩ := (hnode c' node).mp hin
        · exact .inl ⟨node, hold, rfl, rfl⟩
        · exact .inr ⟨node.1, hp, by rw [hpol]⟩
  · intro c' a ha b hb
    -- the nodes of the category had the policy of the call before
    obtain hold | ⟨rfl, -, hnew⟩ := (hnode c' a).mp ha
    · obtain hold' | ⟨rfl, -, hnew'⟩ := (hnode c' b).mp hb
      · exact h.uniform c' a hold b hold'
      · rw [hpolicy a hold, hnew']
    · obtain hold' | ⟨-, -, hnew'⟩ := (hnode c' b).mp hb
      · rw [hpolicy b hold', hnew]
      · rw [hnew, hnew']

theorem Kept.unregisterKeys (hsuccess : Successful s (.unregisterKeys keys response))
    (hrecorded : Recorded deref s (.unregisterKeys keys response)) :
    Kept deref (s.step deref (.unregisterKeys keys response)) := by
  have hnode : ∀ c node, node ∈ eraseKeys (s.lists.interestList c) keys ↔
      node ∈ s.lists.interestList c ∧ node.1 ∉ keys :=
    fun c => mem_eraseKeys (h.keysDistinct c)
  rw [step_eq (unregisterKeys_lists hsuccess)]
  refine ⟨fun c => distinct_eraseKeys keys (h.keysDistinct c), h.regexDistinct, ?_, ?_⟩
  · rintro ⟨target, c, policy⟩
    unfold Call.onServer
    rw [Set.mem_sep_iff, h.stores]
    cases target with
    | regex regex => exact and_iff_left nofun
    | key k =>
      constructor
      · rintro ⟨⟨node, hin, rfl, rfl⟩, hleft⟩
        exact ⟨node, (hnode c node).mpr ⟨hin, fun hp => hleft node.1 hp rfl⟩, rfl, rfl⟩
      · rintro ⟨node, hin, rfl, rfl⟩
        obtain ⟨hin, hleft⟩ := (hnode c node).mp hin
        refine ⟨⟨node, hin, rfl, rfl⟩, fun p hp heq => hleft ?_⟩
        -- the key of the node is among the keys, so its pointer is
        exact hrecorded c node hin ⟨p, hp, (Target.key.inj heq).symm⟩
  · intro c a ha b hb
    exact h.uniform c a ((hnode c a).mp ha).1 b ((hnode c b).mp hb).1

section
variable (hfresh : Fresh deref s (.registerRegex regex c interestPolicy response))
include hfresh

/-- A fresh expression is not covered when `.*` is not registered with its durability. -/
theorem Kept.covers_eq_false
    (hall : ∀ receiveValues, ∀ node ∈ s.lists.interestListRegex ⟨c.isDurable, receiveValues⟩,
      node.1 ≠ ".*") : s.lists.covers regex c = false := by
  have hone : ∀ receiveValues, isRegexRegistered
      (s.lists.interestListRegex ⟨c.isDurable, receiveValues⟩) regex (regex = ".*") = false := by
    intro receiveValues
    unfold isRegexRegistered
    rw [Bool.or_eq_false_iff, Bool.and_eq_false_iff]
    refine ⟨?_, .inr ?_⟩
    · rw [Bool.eq_false_iff, ne_eq, find_ofEq_isSome]
      intro hin
      obtain ⟨node, hnode, heq⟩ := mem_map.mp hin
      exact hall receiveValues node hnode heq
    · rw [Bool.eq_false_iff, ne_eq, find_ofEq_isSome]
      intro hin
      obtain ⟨node, hnode, rfl⟩ := mem_map.mp hin
      exact hfresh _ (h.regex_mem hnode) rfl
  unfold covers
  rw [hone, hone]
  rfl

/-- The nodes after a new expression is added, to empty maps in the case of `.*`. -/
theorem Kept.mem_addRegex
    (hclear : regex = ".*" → s.lists.interestList c = [] ∧ s.lists.interestListRegex c = [])
    (c' : Category) (node : String × InterestResultPolicy) :
    node ∈ (s.lists.addRegex regex c interestPolicy).interestListRegex c' ↔
      node ∈ s.lists.interestListRegex c' ∨ c' = c ∧ node = (regex, interestPolicy) := by
  rw [addRegex_interestListRegex]
  by_cases hc : c' = c
  · subst hc
    rw [update_self]
    split
    · next hall =>
      rw [(hclear hall).2]
      simp
    · have hnew : regex ∉ (s.lists.interestListRegex c').map (·.1) := by
        intro hin
        obtain ⟨node, hnode, rfl⟩ := mem_map.mp hin
        exact hfresh _ (h.regex_mem hnode) rfl
      rw [mem_emplace_ofEq]
      simp [hnew]
  · rw [update_of_ne hc]
    simp [hc]

theorem Kept.registerRegex
    (hsuccess : Successful s (.registerRegex regex c interestPolicy response))
    (hrecorded : Recorded deref s (.registerRegex regex c interestPolicy response)) :
    Kept deref (s.step deref (.registerRegex regex c interestPolicy response)) := by
  obtain ⟨hprimary, hall, hclear⟩ := hrecorded
  have hlists := registerRegex_lists hsuccess
  rw [h.covers_eq_false hfresh hall, hprimary, Bool.false_or, if_neg Bool.false_ne_true] at hlists
  have hnode := h.mem_addRegex hfresh hclear
  -- the maps of the keys are unchanged, as `.*` clears an empty one
  have hkeys : (s.lists.addRegex regex c interestPolicy).interestList = s.lists.interestList := by
    unfold addRegex
    split
    · next hregex =>
      rw [← (hclear hregex).1, update_eq_self]
    · rfl
  rw [step_eq hlists]
  refine ⟨fun c' => by rw [hkeys]; exact h.keysDistinct c', ?_, ?_, ?_⟩
  · rw [addRegex_interestListRegex]
    refine (forall_update_iff _ fun _ => Distinct (KeyEqual.ofEq String)).mpr
      ⟨?_, fun c' _ => h.regexDistinct c'⟩
    split
    · exact pairwise_singleton _ _
    · exact (h.regexDistinct c).emplace_ofEq regex interestPolicy
  · rintro ⟨target, c', policy⟩
    unfold Call.onServer
    rw [Set.mem_union, h.stores]
    cases target with
    | key k =>
      unfold Stores
      rw [hkeys]
      exact or_iff_left nofun
    | regex regex' =>
      refine Iff.trans (or_congr_right ?_) (hnode c' (regex', policy)).symm
      rw [Set.mem_singleton_iff, Registration.mk.injEq, Target.regex.injEq, Prod.mk.injEq]
      constructor
      · rintro ⟨hregex, hc, hpolicy⟩
        exact ⟨hc, hregex, hpolicy⟩
      · rintro ⟨hc, hregex, hpolicy⟩
        exact ⟨hregex, hc, hpolicy⟩
  · intro c' a ha b hb
    rw [hkeys] at ha hb
    exact h.uniform c' a ha b hb

end

theorem Kept.unregisterRegex (hsuccess : Successful s (.unregisterRegex regex response)) :
    Kept deref (s.step deref (.unregisterRegex regex response)) := by
  rw [step_eq (unregisterRegex_lists hsuccess)]
  refine ⟨h.keysDistinct, fun c => (h.regexDistinct c).erase regex, ?_, h.uniform⟩
  rintro ⟨target, c, policy⟩
  unfold Call.onServer
  rw [Set.mem_sep_iff, h.stores]
  cases target with
  | key k => exact and_iff_left nofun
  | regex regex' =>
    refine Iff.trans ?_ (mem_erase_ofEq (h.regexDistinct c) regex (regex', policy)).symm
    refine and_congr_right fun _ => not_congr ?_
    rw [Target.regex.injEq]

/-! ### Calls without the condition lose something -/

variable {orders : Orders P}

theorem Kept.not_same_of_unrecorded {r : Registration K}
    (hlists : (call.result s.lists).2 = s.lists) (hr : r ∈ call.onServer deref s.server)
    (hnew : r ∉ s.server) : ¬SameAfterFailover deref orders (s.step deref call) := by
  intro hsame
  rw [step_eq hlists] at hsame
  have hsent : r ∈ s.lists.replayed deref orders := (Set.ext_iff.mp hsame r).mpr hr
  have hkept : SameAfterFailover deref orders s := h.same
  exact hnew ((Set.ext_iff.mp hkept r).mp hsent)

theorem Kept.recorded_of_registerKeys
    (hfresh : Fresh deref s (.registerKeys keys c interestPolicy response))
    (hsuccess : Successful s (.registerKeys keys c interestPolicy response))
    (hsame : SameAfterFailover deref orders
      (s.step deref (.registerKeys keys c interestPolicy response))) :
    Recorded deref s (.registerKeys keys c interestPolicy response) := by
  intro hkeys
  obtain ⟨p, hp⟩ := exists_mem_of_ne_nil keys hkeys
  have hserver : ⟨.key (deref p), c, interestPolicy⟩ ∈
      (Call.registerKeys keys c interestPolicy response).onServer deref s.server :=
    .inr ⟨p, hp, rfl⟩
  have hlists := registerKeys_lists hkeys hsuccess
  have hprimary : response.fromSecondary = false := by
    by_contra hsecondary
    rw [Bool.not_eq_false] at hsecondary
    rw [hsecondary] at hlists
    exact h.not_same_of_unrecorded hlists hserver (fun hin => hfresh p hp _ hin rfl) hsame
  refine ⟨hprimary, fun node hnode => ?_⟩
  -- an old key and a new one are sent with the same policy
  have hold := (key_mem_replayed _ _ _).mp ((Set.ext_iff.mp hsame _).mpr
    (.inl (h.key_mem hnode)))
  have hnew := (key_mem_replayed _ _ _).mp ((Set.ext_iff.mp hsame _).mpr hserver)
  exact hold.1.trans hnew.1.symm

theorem Kept.recorded_of_unregisterKeys (hsuccess : Successful s (.unregisterKeys keys response))
    (hsame : SameAfterFailover deref orders (s.step deref (.unregisterKeys keys response))) :
    Recorded deref s (.unregisterKeys keys response) := by
  rintro c node hnode ⟨p, hp, heq⟩
  by_contra hleft
  rw [step_eq (unregisterKeys_lists hsuccess)] at hsame
  -- the node stays, so the key is still sent
  have hin : node ∈ eraseKeys (s.lists.interestList c) keys :=
    (mem_eraseKeys (h.keysDistinct c) node).mpr ⟨hnode, hleft⟩
  have hsent := (Set.ext_iff.mp hsame _).mp
    ((key_mem_replayed (deref node.1) c _).mpr ⟨rfl, node, hin, rfl⟩)
  exact hsent.2 p hp (by rw [heq])

theorem Kept.recorded_of_registerRegex
    (hfresh : Fresh deref s (.registerRegex regex c interestPolicy response))
    (hsuccess : Successful s (.registerRegex regex c interestPolicy response))
    (hsame : SameAfterFailover deref orders
      (s.step deref (.registerRegex regex c interestPolicy response))) :
    Recorded deref s (.registerRegex regex c interestPolicy response) := by
  have hserver : ⟨.regex regex, c, interestPolicy⟩ ∈
      (Call.registerRegex regex c interestPolicy response).onServer deref s.server := .inr rfl
  have hlists := registerRegex_lists hsuccess
  have hrecords : (s.lists.covers regex c || response.fromSecondary) = false := by
    by_contra hskipped
    rw [Bool.not_eq_false] at hskipped
    rw [hskipped] at hlists
    exact h.not_same_of_unrecorded hlists hserver (fun hin => hfresh _ hin rfl) hsame
  rw [hrecords, if_neg Bool.false_ne_true] at hlists
  rw [step_eq hlists] at hsame
  obtain ⟨hcovers, hprimary⟩ := Bool.or_eq_false_iff.mp hrecords
  have hall : ∀ receiveValues,
      ∀ node ∈ s.lists.interestListRegex ⟨c.isDurable, receiveValues⟩, node.1 ≠ ".*" := by
    intro receiveValues node hnode hstar
    have hfound : (find (KeyEqual.ofEq String)
        (s.lists.interestListRegex ⟨c.isDurable, receiveValues⟩) ".*").isSome :=
      (find_ofEq_isSome _ _).mpr (mem_map.mpr ⟨node, hnode, hstar⟩)
    unfold covers isRegexRegistered at hcovers
    cases receiveValues <;> simp [hfound] at hcovers
  refine ⟨hprimary, hall, ?_⟩
  intro hstar
  constructor
  · -- a key that is cleared is not sent
    refine eq_nil_iff_forall_not_mem.mpr fun node hnode => ?_
    have hsent := (key_mem_replayed _ _ _).mp ((Set.ext_iff.mp hsame _).mpr
      (.inl (h.key_mem hnode)))
    obtain ⟨node', hnode', -⟩ := hsent.2
    unfold addRegex at hnode'
    rw [if_pos hstar] at hnode'
    dsimp only at hnode'
    rw [update_self] at hnode'
    cases hnode'
  · -- an expression that is cleared is not sent, and `.*` itself is not registered
    refine eq_nil_iff_forall_not_mem.mpr fun node hnode => ?_
    have hsent := (regex_mem_replayed _ _ _).mp ((Set.ext_iff.mp hsame _).mpr
      (.inl (h.regex_mem hnode)))
    rw [addRegex_interestListRegex, update_self, if_pos hstar, mem_singleton] at hsent
    exact hall c.receiveValues node hnode ((Prod.ext_iff.mp hsent).1.trans hstar)

theorem Kept.step (hcall : Successful s call ∧ Fresh deref s call)
    (hrecorded : Recorded deref s call) : Kept deref (s.step deref call) := by
  cases call with
  | registerKeys => exact h.registerKeys hcall.2 hcall.1 hrecorded
  | unregisterKeys => exact h.unregisterKeys hcall.1 hrecorded
  | registerRegex => exact h.registerRegex hcall.2 hcall.1 hrecorded
  | unregisterRegex => exact h.unregisterRegex hcall.1

theorem Kept.recorded (hcall : Successful s call ∧ Fresh deref s call)
    (hsame : SameAfterFailover deref orders (s.step deref call)) : Recorded deref s call := by
  cases call with
  | registerKeys => exact h.recorded_of_registerKeys hcall.2 hcall.1 hsame
  | unregisterKeys => exact h.recorded_of_unregisterKeys hcall.1 hsame
  | registerRegex => exact h.recorded_of_registerRegex hcall.2 hcall.1 hsame
  | unregisterRegex => exact trivial

end Step

/-! ## A history of calls -/

/-- Nothing is registered. -/
def State.initial : State P K := ⟨⟨fun _ => [], fun _ => []⟩, ∅⟩

/-- After every call of a history of successful calls, none of which registers what is registered,
a new server gets exactly the registrations, if and only if every call meets the condition
`Recorded` in the state before it. -/
theorem failover_iff [DecidableEq P] (orders : Orders P) (calls : List (Call P))
    (hcalls : Along (State.step deref) (fun s call => Successful s call ∧ Fresh deref s call)
      State.initial calls) :
    (∀ before, before <+: calls →
        SameAfterFailover deref orders (run (State.step deref) State.initial before)) ↔
      Along (State.step deref) (Recorded deref) State.initial calls := by
  have hinitial : Kept deref (State.initial : State P K) :=
    ⟨fun _ => List.Pairwise.nil, fun _ => List.Pairwise.nil, by
      rintro ⟨target, c, policy⟩
      cases target <;> simp [State.initial, Stores], fun _ _ ha => nomatch ha⟩
  exact always_iff_of_invariant (fun _ h => h.same)
    (fun _ _ h hcall hrecorded => h.step hcall hrecorded)
    (fun _ _ h hcall hsame => h.recorded hcall hsame) hinitial hcalls

/-- Orders that leave the maps as they are. -/
def listOrders : Orders Nat := ⟨inOrder, inOrder⟩

/-- The server has accepted the request. -/
def accepted : Response := ⟨.noErr, false⟩

/-- A key and an expression are registered, and the key is unregistered by the same pointer. -/
theorem failover_same :
    SameAfterFailover id listOrders (run (State.step id) State.initial
      [.registerKeys [7] ⟨false, true⟩ .keysValues accepted,
        .registerRegex "a.*" ⟨true, false⟩ .keys accepted, .unregisterKeys [7] accepted]) := by
  refine (failover_iff id listOrders [.registerKeys [7] ⟨false, true⟩ .keysValues accepted,
    .registerRegex "a.*" ⟨true, false⟩ .keys accepted, .unregisterKeys [7] accepted] ?_).mpr ?_ _
    (List.prefix_refl _)
  · refine ⟨⟨rfl, ?_⟩, ⟨rfl, ?_⟩, ⟨rfl, trivial⟩, trivial⟩
    · simp [Fresh, State.initial]
    · simp [Fresh, State.step, Call.onServer, State.initial]
  · refine ⟨?_, ?_, ?_, trivial⟩
    · simp [Recorded, State.initial, accepted]
    · simp [Recorded, State.step, Call.result, State.initial, accepted,
        registerKeysNoThrow, addKeys]
    · rintro c node - ⟨p, hp, rfl⟩
      exact hp

/-- Two keys that are registered with different policies. -/
def mixedPolicies : List (Call Nat) :=
  [.registerKeys [7] ⟨false, true⟩ .keysValues accepted,
    .registerKeys [8] ⟨false, true⟩ .none accepted]

/-- A key that is unregistered by another pointer than the one that registered it. -/
def otherPointer : List (Call Nat) :=
  [.registerKeys [7] ⟨false, true⟩ .keysValues accepted, .unregisterKeys [8] accepted]

/-- Keys with different policies are sent with one policy, and a key that is unregistered by another
pointer to an equal key is still sent. -/
theorem failover_differs :
    (Along (State.step id) (fun s call => Successful s call ∧ Fresh id s call) State.initial
        mixedPolicies ∧
      ¬SameAfterFailover id listOrders (run (State.step id) State.initial mixedPolicies)) ∧
    Along (State.step fun _ : Nat => 0)
      (fun s call => Successful s call ∧ Fresh (fun _ => 0) s call)
        State.initial otherPointer ∧
      ¬SameAfterFailover (fun _ : Nat => 0) listOrders
        (run (State.step fun _ => 0) State.initial otherPointer) := by
  refine ⟨⟨⟨⟨rfl, ?_⟩, ⟨rfl, ?_⟩, trivial⟩, ?_⟩, ⟨⟨rfl, ?_⟩, ⟨rfl, trivial⟩, trivial⟩, ?_⟩
  · simp [Fresh, State.initial]
  · simp [Fresh, State.step, Call.onServer, State.initial]
  · intro hsame
    have hfirst := (key_mem_replayed 7 ⟨false, true⟩ .keysValues).mp
      ((Set.ext_iff.mp hsame _).mpr (.inl (.inr ⟨7, mem_singleton_self _, rfl⟩)))
    have hsecond := (key_mem_replayed 8 ⟨false, true⟩ .none).mp
      ((Set.ext_iff.mp hsame _).mpr (.inr ⟨8, mem_singleton_self _, rfl⟩))
    cases hfirst.1.trans hsecond.1.symm
  · simp [Fresh, State.initial]
  · intro hsame
    have hsent := (Set.ext_iff.mp hsame _).mp
      ((key_mem_replayed 0 ⟨false, true⟩ .keysValues).mpr
        ⟨rfl, (7, .keysValues), mem_singleton_self _, rfl⟩)
    exact hsent.2 8 (mem_singleton_self _) rfl

end GeodeNative.Region.Interest
