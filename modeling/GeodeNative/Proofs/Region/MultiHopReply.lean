import GeodeNative.Region.LocalRegion

/-!
# Reading the reply to a bulk request

The chunks of a reply append their tags and keys to the list of the result collector (`Appends`). A
chunk with keys but without a vector of tags cannot be read: `fromData` writes outside of a vector.
So a reply that `Succeeds` gives the list of its tags and keys (`multiHop_ok`), and any other reply
does not return `GF_NOERR` (`multiHop_fails`).
-/

set_option autoImplicit false

namespace GeodeNative.Region

open ObjectPartList

open Cache (VersionTag)

namespace Chunk

variable {K : Type}

/-- The tags of a chunk. -/
def tags : Chunk K → List (Option VersionTag)
  | .object part => part.tags.getD []
  | _ => []

/-- The keys of a chunk. -/
def keys : Chunk K → List K
  | .object part => part.keys.getD []
  | _ => []

/-- The chunk has an object part. -/
def isObject : Chunk K → Bool
  | .object _ => true
  | _ => false

/-- The chunk does not have keys without a vector of tags. -/
def WellFormed : Chunk K → Prop
  | .object part => part.tags.isSome = true ∨ part.keys.getD [] = []
  | _ => True

end Chunk

namespace MultiHopReply

variable {K : Type} (reply : MultiHopReply K)

/-- The tags of the reply. -/
def tags : List (Option VersionTag) := reply.chunks.flatMap Chunk.tags

/-- The keys of the reply. -/
def keys : List K := reply.chunks.flatMap Chunk.keys

/-- Some chunk has an object part. -/
def hasObject : Bool := reply.chunks.any Chunk.isObject

/-- The server has done its part, and the reply can be read. -/
structure Succeeds : Prop where
  err : reply.err = none
  messageType : reply.messageType = .reply ∨ reply.messageType = .response
  wellFormed : ∀ chunk ∈ reply.chunks, chunk.WellFormed

end MultiHopReply

section Reading
variable {K : Type}

/-- `list'` is `list` with these tags and keys appended. There is a vector of keys afterwards when
there was one, or when an object part was read. -/
structure Appends (list list' : ObjectPartList K) (tags : List (Option VersionTag)) (keys : List K)
    (object : Bool) : Prop where
  tags : list'.versionTags = list.versionTags ++ tags
  keys : list'.tempKeys.getD [] = list.tempKeys.getD [] ++ keys
  isSome : list'.tempKeys.isSome = (list.tempKeys.isSome || object)

variable (list : ObjectPartList K)

theorem Appends.refl : Appends list list [] [] false :=
  ⟨(List.append_nil _).symm, (List.append_nil _).symm, (Bool.or_false _).symm⟩

theorem addAll_appends {other : ObjectPartList K} {keys : List K}
    (h : other.tempKeys = some keys) :
    Appends list (list.addAll other) other.versionTags keys true := by
  unfold addAll
  cases hown : list.tempKeys <;> dsimp only <;> split <;> constructor <;> simp_all

theorem fromData_wellFormed {part : ObjectPart K} (h : (Chunk.object part).WellFormed) :
    ∃ list, fromData part = .ok list ∧
      list.tempKeys = some (part.keys.getD []) ∧ list.versionTags = part.tags.getD [] := by
  obtain ⟨keys, tags⟩ := part
  cases tags with
  | some tags => exact ⟨⟨some (keys.getD []), keys.isSome, true, tags⟩,
      by simp [fromData], rfl, rfl⟩
  | none =>
    have hkeys : keys.getD [] = [] := h.resolve_left nofun
    cases keys with
    | none => exact ⟨_, rfl, rfl, rfl⟩
    | some keys =>
      cases hkeys
      exact ⟨_, rfl, rfl, rfl⟩

theorem fromData_malformed {part : ObjectPart K} (h : ¬ (Chunk.object part).WellFormed) :
    fromData part = .error .outOfBounds := by
  obtain ⟨keys, tags⟩ := part
  obtain ⟨htags, hkeys⟩ := not_or.mp h
  cases tags with
  | some tags => exact absurd rfl htags
  | none =>
    cases keys with
    | none => exact absurd rfl hkeys
    | some keys =>
      cases keys with
      | nil => exact absurd rfl hkeys
      | cons key keys => rfl

theorem handleChunk_ok {chunk : Chunk K} (h : chunk.WellFormed) :
    ∃ list', list.handleChunk chunk = .ok list' ∧
      Appends list list' chunk.tags chunk.keys chunk.isObject := by
  cases chunk with
  | nullObject => exact ⟨list, rfl, .refl list⟩
  | bytes => exact ⟨list, rfl, .refl list⟩
  | object part =>
    obtain ⟨other, hother, hkeys, htags⟩ := fromData_wellFormed h
    refine ⟨list.addAll other, ?_, ?_⟩
    · rw [handleChunk, hother]
    · have happend := addAll_appends list hkeys
      rwa [htags] at happend

theorem handleChunks_ok {chunks : List (Chunk K)} (h : ∀ chunk ∈ chunks, chunk.WellFormed)
    (list : ObjectPartList K) :
    ∃ list', list.handleChunks chunks = .ok list' ∧
      Appends list list' (chunks.flatMap Chunk.tags) (chunks.flatMap Chunk.keys)
        (chunks.any Chunk.isObject) := by
  induction chunks generalizing list with
  | nil => exact ⟨list, rfl, .refl list⟩
  | cons chunk chunks ih =>
    obtain ⟨hchunk, hrest⟩ := List.forall_mem_cons.mp h
    obtain ⟨list₁, hlist₁, happend₁⟩ := handleChunk_ok list hchunk
    obtain ⟨list₂, hlist₂, happend₂⟩ := ih hrest list₁
    refine ⟨list₂, ?_, ?_, ?_, ?_⟩
    · rw [handleChunks, hlist₁]
      exact hlist₂
    · rw [happend₂.tags, happend₁.tags, List.append_assoc]
      rfl
    · rw [happend₂.keys, happend₁.keys, List.append_assoc]
      rfl
    · rw [happend₂.isSome, happend₁.isSome, Bool.or_assoc]
      rfl

theorem handleChunks_malformed {chunks : List (Chunk K)} (h : ¬ ∀ chunk ∈ chunks, chunk.WellFormed)
    (list : ObjectPartList K) : list.handleChunks chunks = .error .outOfBounds := by
  induction chunks generalizing list with
  | nil => exact absurd nofun h
  | cons chunk chunks ih =>
    rw [handleChunks]
    by_cases hchunk : chunk.WellFormed
    · obtain ⟨list', hlist', -⟩ := handleChunk_ok list hchunk
      rw [hlist']
      exact ih (fun hrest => h (List.forall_mem_cons.mpr ⟨hchunk, hrest⟩)) list'
    · cases chunk with
      | nullObject => exact absurd trivial hchunk
      | bytes => exact absurd trivial hchunk
      | object part => rw [handleChunk, fromData_malformed hchunk]

/-- A reply that succeeds gives the list of its tags and keys. The vector of keys is null when the
reply has no object part. -/
theorem multiHop_ok (code : Nat) {reply : MultiHopReply K} (h : reply.Succeeds) :
    ∃ list, multiHopNoThrowRemote code reply = .ok (.gf .noErr, list) ∧
      list.versionTags = reply.tags ∧
      list.tempKeys = if reply.hasObject then some reply.keys else none := by
  obtain ⟨list, hlist, happend⟩ := handleChunks_ok h.wellFormed .empty
  refine ⟨list, ?_, happend.tags, ?_⟩
  · unfold multiHopNoThrowRemote
    rw [hlist, h.err]
    obtain htype | htype := h.messageType <;> rw [htype]
  · have hkeys := happend.keys
    have hsome := happend.isSome
    cases htemp : list.tempKeys with
    | none =>
      rw [htemp] at hsome
      exact (if_neg (Bool.eq_false_iff.mp hsome.symm)).symm
    | some keys =>
      rw [htemp] at hkeys hsome
      rw [if_pos (show reply.hasObject = true from hsome.symm)]
      exact congrArg some hkeys

theorem multiHop_fails (code : Nat) {reply : MultiHopReply K} (h : ¬ reply.Succeeds)
    (list : ObjectPartList K) : multiHopNoThrowRemote code reply ≠ .ok (.gf .noErr, list) := by
  intro hok
  unfold multiHopNoThrowRemote at hok
  by_cases hwell : ∀ chunk ∈ reply.chunks, chunk.WellFormed
  · obtain ⟨list', hlist', -⟩ := handleChunks_ok hwell .empty
    rw [hlist'] at hok
    cases herr : reply.err with
    | some code =>
      rw [herr] at hok
      cases hok
    | none =>
      rw [herr] at hok
      cases htype : reply.messageType with
      | reply => exact h ⟨herr, Or.inl htype, hwell⟩
      | response => exact h ⟨herr, Or.inr htype, hwell⟩
      | exception code notAuthorized =>
        rw [htype] at hok
        cases hok
      | putDataError =>
        rw [htype] at hok
        cases hok
      | other =>
        rw [htype] at hok
        cases hok
  · rw [handleChunks_malformed hwell] at hok
    cases hok

end Reading

end GeodeNative.Region
