import GeodeNative.Lib.Layout
import GeodeNative.Proofs.Statistics.CompactValue

/-!
# The tokens are read back

For each token of an archive, the bytes that the writer has for it are read as the token, wherever
they lie (`readToken_*`). `Spells` says that some bytes are the bytes of some tokens, one after the
other, and `Spells.readTokens` that they are then read as these tokens.

Two of the numbers have bytes that stand for something else, so a condition is needed for them. The
id of an instance is not negative. The difference of two time stamps does not end in two bytes of
ones, unless it is written in four bytes (`StampFits`).
-/

set_option autoImplicit false

namespace GeodeNative.Statistics

open Lib StatDataOutput List

/-! ### Numbers and strings -/

theorem readNumber_reads (n : Nat) (v : BitVec (8 * n)) :
    Reads (readNumber n) (bigEndian n v) v := by
  have hbytes := Reads.nextN ReadError.endOfData (bigEndian n v)
  rw [length_bigEndian] at hbytes
  have hread := hbytes.map (ofBigEndian (8 * n))
  rwa [ofBigEndian_bigEndian] at hread

theorem readString_write (s : List Byte) : Reads readString (writeString s) (s.take 0xFFFF) := by
  have htake : s.take (min s.length 0xFFFF) = s.take 0xFFFF := by
    rw [Nat.min_comm, ← take_take, take_length]
  have hlen : (BitVec.ofNat 16 (min s.length 0xFFFF)).toNat = (s.take 0xFFFF).length := by
    rw [BitVec.toNat_ofNat, length_take]
    omega
  refine (readNumber_reads 2 (BitVec.ofNat 16 (min s.length 0xFFFF))).bind ?_
  rw [htake]
  have hbytes := Reads.nextN ReadError.endOfData (s.take 0xFFFF)
  rwa [← hlen] at hbytes

/-! ### A sample -/

/-- The id of an instance is read from one, three or five bytes. -/
theorem readResourceInst_write {id : BitVec 32} (h : 0 ≤ id.toInt) :
    Reads readResourceInst (writeResourceInst id) (some id) := by
  have hnat : id.toInt = id.toNat := by
    have hcond := BitVec.toInt_eq_toNat_cond id
    split at hcond <;> omega
  unfold writeResourceInst
  by_cases hbyte : id.toInt > 252
  · rw [if_pos hbyte]
    by_cases hshort : id.toInt > 65535
    · rw [if_pos hshort]
      exact (readByte_reads 254).bind ((readNumber_reads 4 id).map some)
    · rw [if_neg hshort]
      have hback : (id.setWidth 16).setWidth 32 = id := by
        apply BitVec.eq_of_toNat_eq
        rw [BitVec.toNat_setWidth, BitVec.toNat_setWidth]
        omega
      refine (readByte_reads 253).bind ?_
      have hread := (readNumber_reads 2 (id.setWidth 16)).map fun id => some (id.setWidth 32)
      rwa [hback] at hread
  · rw [if_neg hbyte]
    have hback : (id.setWidth 8).setWidth 32 = id := by
      apply BitVec.eq_of_toNat_eq
      rw [BitVec.toNat_setWidth, BitVec.toNat_setWidth]
      omega
    -- the three largest bytes are the tokens
    have htoken : ∀ token : Byte, 252 < token.toNat → id.setWidth 8 ≠ token := by
      intro token htoken heq
      have hmod := congrArg BitVec.toNat heq
      rw [BitVec.toNat_setWidth] at hmod
      omega
    refine (readByte_reads _).bind_nil ?_
    rw [if_neg (htoken 255 (by decide)), if_neg (htoken 254 (by decide)),
      if_neg (htoken 253 (by decide)), hback]
    exact Reads.pure (some id)

theorem readResourceInst_illegal : Reads readResourceInst (writeResourceInst (-1)) none :=
  (readByte_reads 255).bind_nil (Reads.pure none)

/-- The bytes of the changes of an instance. -/
def changeBytes (changes : List (Byte × BitVec 64)) : List Byte :=
  changes.flatMap fun c => writeByte c.1 ++ writeCompactValue c.2

variable {fuel : Nat}

theorem readChanges_reads {changes : List (Byte × BitVec 64)} (hfuel : changes.length < fuel)
    (hoffsets : ∀ c ∈ changes, c.1 ≠ 255) :
    Reads (readChanges fuel) (changeBytes changes ++ writeByte 255) changes := by
  induction changes generalizing fuel with
  | nil =>
    cases fuel with
    | zero => cases hfuel
    | succ fuel => exact (readByte_reads 255).bind_nil (Reads.pure [])
  | cons c changes ih =>
    cases fuel with
    | zero => cases hfuel
    | succ fuel =>
      have hrest := ih (Nat.lt_of_succ_lt_succ hfuel) fun d hd =>
        hoffsets d (mem_cons_of_mem c hd)
      have hbytes : changeBytes (c :: changes) ++ writeByte 255 =
          writeByte c.1 ++ (writeCompactValue c.2 ++ (changeBytes changes ++ writeByte 255)) := by
        simp [changeBytes]
      rw [hbytes]
      refine (readByte_reads c.1).bind ?_
      rw [if_neg (hoffsets c mem_cons_self)]
      exact (readCompactValue_write c.2).bind (hrest.map fun rest => (c.1, c.2) :: rest)

/-- The bytes of an instance in a sample. -/
def instanceBytes (c : BitVec 32 × List (Byte × BitVec 64)) : List Byte :=
  writeResourceInst c.1 ++ changeBytes c.2 ++ writeByte 255

/-- An instance in a sample, with an id and offsets that are legal. -/
structure LegalChanges (c : BitVec 32 × List (Byte × BitVec 64)) : Prop where
  id : 0 ≤ c.1.toInt
  count : c.2.length ≤ 255
  offsets : ∀ d ∈ c.2, d.1 ≠ 255

variable {changes : List (BitVec 32 × List (Byte × BitVec 64))}

theorem readInstances_reads (hfuel : changes.length < fuel)
    (hlegal : ∀ c ∈ changes, LegalChanges c) :
    Reads (readInstances fuel) (changes.flatMap instanceBytes ++ writeResourceInst (-1))
      changes := by
  induction changes generalizing fuel with
  | nil =>
    cases fuel with
    | zero => cases hfuel
    | succ fuel => exact readResourceInst_illegal.bind_nil (Reads.pure [])
  | cons c changes ih =>
    cases fuel with
    | zero => cases hfuel
    | succ fuel =>
      have hc := hlegal c mem_cons_self
      have hrest := ih (Nat.lt_of_succ_lt_succ hfuel) fun d hd =>
        hlegal d (mem_cons_of_mem c hd)
      have hbytes : (c :: changes).flatMap instanceBytes ++ writeResourceInst (-1) =
          writeResourceInst c.1 ++ ((changeBytes c.2 ++ writeByte 255) ++
            (changes.flatMap instanceBytes ++ writeResourceInst (-1))) := by
        simp [instanceBytes]
      rw [hbytes]
      refine (readResourceInst_write hc.id).bind ?_
      have hcount : c.2.length < 256 := Nat.lt_succ_of_le hc.count
      have hchanges := readChanges_reads hcount hc.offsets
      exact hchanges.bind (hrest.map fun rest => (c.1, c.2) :: rest)

/-- The difference of two time stamps can be told from the token for a long one. -/
def StampFits (delta : BitVec 32) : Prop := delta.toInt > 65534 ∨ delta.setWidth 16 ≠ 65535

instance (delta : BitVec 32) : Decidable (StampFits delta) :=
  inferInstanceAs (Decidable (_ ∨ _))

theorem readTimeStamp_write {delta : BitVec 32} (h : StampFits delta) :
    Reads readTimeStamp (Archive.writeTimeStamp delta)
      (if delta.toInt > 65534 then delta else (delta.setWidth 16).setWidth 32) := by
  unfold Archive.writeTimeStamp
  split
  · exact (readNumber_reads 2 65535).bind (readNumber_reads 4 delta)
  · next hlong =>
    refine (readNumber_reads 2 (delta.setWidth 16)).bind_nil ?_
    rw [if_neg (h.resolve_left hlong)]
    exact Reads.pure _

/-! ### A type -/

theorem readDescriptor_write (d : StatisticDescriptor) :
    Reads readDescriptor (writeDescriptor d) d.archived := by
  unfold writeDescriptor
  simp only [append_assoc]
  exact (readString_write d.name).bind <| (readByte_reads _).bind <| (readByte_reads _).bind <|
    (readByte_reads _).bind <| (readString_write d.unit).bind <|
      (readString_write d.description).map fun description => _

/-- The bytes of the definition of a type. -/
def typeBytes (t : StatisticsType) : List Byte :=
  writeString t.name ++ (writeString t.description ++
    (writeShort (BitVec.ofNat 16 t.stats.length) ++ t.stats.flatMap writeDescriptor))

theorem readType_write {t : StatisticsType} (h : t.stats.length < 65536) :
    Reads readType (typeBytes t) t.archived := by
  have hcount : (BitVec.ofNat 16 t.stats.length).toNat = t.stats.length := by
    rw [BitVec.toNat_ofNat]
    omega
  have hstats := Reads.times_map fun d (_ : d ∈ t.stats) => readDescriptor_write d
  rw [← hcount] at hstats
  exact (readString_write t.name).bind <| (readString_write t.description).bind <|
    (readNumber_reads 2 (BitVec.ofNat 16 t.stats.length)).bind <|
      hstats.map fun stats => (⟨t.name.take 0xFFFF, t.description.take 0xFFFF, stats⟩ : TypeDef)

/-! ### Tokens -/

theorem readToken_instanceDelete (id : BitVec 32) :
    Reads readToken (writeByte 3 ++ writeInt id) (.instanceDelete id) :=
  (readByte_reads 3).bind ((readNumber_reads 4 id).map Token.instanceDelete)

theorem readToken_instanceCreate (id : BitVec 32) (textId : List Byte) (numericId : BitVec 64)
    (type : BitVec 32) :
    Reads readToken (writeByte 2 ++ writeInt id ++ writeString textId ++ writeLong numericId ++
      writeInt type) (.instanceCreate id (textId.take 0xFFFF) numericId type) := by
  simp only [append_assoc]
  exact (readByte_reads 2).bind <| (readNumber_reads 4 id).bind <| (readString_write textId).bind <|
    (readNumber_reads 8 numericId).bind <| (readNumber_reads 4 type).map fun type => _

theorem readToken_resourceType (id : BitVec 32) {t : StatisticsType} (h : t.stats.length < 65536) :
    Reads readToken (writeByte 1 ++ writeInt id ++ typeBytes t) (.resourceType id t.archived) := by
  exact (readByte_reads 1).bind <| (readNumber_reads 4 id).bind <|
    (readType_write h).map fun type => _

theorem get_bind {A : Type} (f : Input Byte → Reader A) (s : Input Byte) :
    ((get : Reader (Input Byte)) >>= f) s = f s s := rfl

theorem reads_bufferLength {A : Type} {f : Nat → Reader A} {bs : List Byte} {v : A}
    (h : ∀ n, bs.length ≤ n → Reads (f n) bs v) : Reads (bufferLength >>= f) bs v := by
  intro front back
  have hlen : bs.length ≤ (front ++ bs ++ back).length := by
    simp only [length_append]
    omega
  exact h _ hlen front back

theorem readToken_sample {delta : BitVec 32} (hstamp : StampFits delta)
    (hlegal : ∀ c ∈ changes, LegalChanges c) :
    ∃ timeStamp, Reads readToken (writeByte 0 ++ Archive.writeTimeStamp delta ++
      changes.flatMap instanceBytes ++ writeResourceInst (-1)) (.sample timeStamp changes) := by
  refine ⟨if delta.toInt > 65534 then delta else (delta.setWidth 16).setWidth 32, ?_⟩
  simp only [append_assoc]
  refine (readByte_reads 0).bind
    ((readTimeStamp_write hstamp).bind (reads_bufferLength fun n hn => ?_))
  have hcount : changes.length ≤ (changes.flatMap instanceBytes).length :=
    length_le_flatMap fun c _ => by simp [instanceBytes, writeByte]
  rw [length_append] at hn
  exact (readInstances_reads (by omega) hlegal).map (Token.sample _)

/-! ### Sequences of tokens -/

/-- The bytes are those of the tokens, one token after the other. -/
def Spells (bytes : List Byte) (tokens : List Token) : Prop :=
  ∃ pieces : List (List Byte × Token), (∀ q ∈ pieces, q.1 ≠ [] ∧ Reads readToken q.1 q.2) ∧
    bytes = pieces.flatMap (·.1) ∧ tokens = pieces.map (·.2)

namespace Spells

theorem nil : Spells [] [] := ⟨[], nofun, rfl, rfl⟩

/-- One token. It has bytes. -/
theorem single {bytes : List Byte} {token : Token} (hne : bytes ≠ [])
    (h : Reads readToken bytes token) : Spells bytes [token] := by
  refine ⟨[(bytes, token)], ?_, ?_, rfl⟩
  · intro q hq
    rw [mem_singleton.mp hq]
    exact ⟨hne, h⟩
  · simp

theorem append {bytes bytes' : List Byte} {tokens tokens' : List Token} (h : Spells bytes tokens)
    (h' : Spells bytes' tokens') : Spells (bytes ++ bytes') (tokens ++ tokens') := by
  obtain ⟨pieces, hpieces, rfl, rfl⟩ := h
  obtain ⟨pieces', hpieces', rfl, rfl⟩ := h'
  refine ⟨pieces ++ pieces', ?_, flatMap_append.symm, (map_append ..).symm⟩
  intro q hq
  exact (mem_append.mp hq).elim (hpieces q) (hpieces' q)

/-- The tokens of some pieces at the end of a buffer are read. -/
theorem readTokens_pieces {pieces : List (List Byte × Token)}
    (h : ∀ q ∈ pieces, q.1 ≠ [] ∧ Reads readToken q.1 q.2) (hfuel : pieces.length < fuel)
    (front : List Byte) :
    ∃ s, Statistics.readTokens fuel ⟨front ++ pieces.flatMap (·.1), front.length⟩ =
      .ok (pieces.map (·.2)) s := by
  induction pieces generalizing fuel front with
  | nil =>
    cases fuel with
    | zero => cases hfuel
    | succ fuel =>
      rw [flatMap_nil, append_nil]
      refine ⟨⟨front, front.length⟩, ?_⟩
      unfold Statistics.readTokens
      rw [get_bind]
      rw [if_pos rfl]
      rfl
  | cons q pieces ih =>
    cases fuel with
    | zero => cases hfuel
    | succ fuel =>
      obtain ⟨hne, hread⟩ := h q mem_cons_self
      have hmore : ((front.length : Nat) : Int) ≠
          ((front ++ (q :: pieces).flatMap (·.1)).length : Nat) := by
        have hpos := length_pos_iff.mpr hne
        rw [flatMap_cons, length_append, length_append]
        omega
      obtain ⟨s, hrest⟩ := ih (fun r hr => h r (mem_cons_of_mem q hr))
        (Nat.lt_of_succ_lt_succ hfuel) (front ++ q.1)
      have hbuffer : front ++ (q :: pieces).flatMap (·.1) =
          front ++ q.1 ++ pieces.flatMap (·.1) := by
        rw [flatMap_cons, append_assoc]
      refine ⟨s, ?_⟩
      unfold Statistics.readTokens
      rw [get_bind]
      rw [if_neg hmore, hbuffer]
      exact (bind_ok (hread front _)).trans ((bind_ok hrest).trans rfl)

theorem readTokens {bytes : List Byte} {tokens : List Token} (h : Spells bytes tokens) :
    ∃ s, Statistics.readTokens (bytes.length + 1) ⟨bytes, 0⟩ = .ok tokens s := by
  obtain ⟨pieces, hpieces, rfl, rfl⟩ := h
  have hcount : pieces.length ≤ (pieces.flatMap (·.1)).length :=
    length_le_flatMap fun q hq => (hpieces q hq).1
  exact readTokens_pieces hpieces (Nat.lt_succ_of_le hcount) []

end Spells

end GeodeNative.Statistics
