import GeodeNative.Lib.Run
import GeodeNative.Proofs.Serialization.RoundTrip
import GeodeNative.Statistics.StatArchiveWriter

/-!
# The count of the bytes in the buffer

`writeString` and `writeUTF` count the characters of the string. The buffer also gets the two bytes
of the length, and the further bytes of wide characters. So the count is behind from a string to
the next `resetBuffer` (`exact_run_iff`).
-/

set_option autoImplicit false

namespace GeodeNative.Statistics.StatDataOutput

open Lib Serialization DataOutput List

/-- The string of the call has an encoded length of at most 0xFFFF. -/
def Call.Short : Call → Prop
  | .writeString s => s.length ≤ 0xFFFF
  | .writeUTF s => (s.map wideCharEncodedLength).sum ≤ 0xFFFF
  | _ => True

/-- The call writes a string. -/
def Call.IsString : Call → Prop
  | .writeString _ | .writeUTF _ => True
  | _ => False

/-- `getBytesWritten` is the number of bytes in the buffer. -/
def Exact (out : StatDataOutput) : Prop := out.bytesWritten = out.dataBuffer.bytes.length

/-- Every string is followed by a `resetBuffer`. -/
def StringsReset : List Call → Prop
  | [] => True
  | call :: calls => (call.IsString → .resetBuffer ∈ calls) ∧ StringsReset calls

theorem len32_cons_ne_zero {α : Type} {a : α} {l : List α} (h : (a :: l).length < 2 ^ 32) :
    len32 (a :: l) ≠ 0 := by
  intro hzero
  have hnat := toNat_len32 h
  rw [hzero] at hnat
  exact Nat.succ_ne_zero _ hnat.symm

theorem length_writeASCII (o : DataOutput) {s : List Byte} (hs : s.length ≤ 0xFFFF) :
    (o.writeASCII s (len32 s)).bytes.length = o.bytes.length + s.length + 2 := by
  -- The length 0 stands for `strlen`, which is 0 too.
  have hlen : lengthOr s (len32 s) = len32 s := by
    cases s with
    | nil => rfl
    | cons c cs => exact if_neg (len32_cons_ne_zero (by omega))
  simp only [writeASCII, hlen, writeInt16, writeBytesOnly]
  rw [if_neg (by simp [BitVec.lt_def]; omega)]
  simp [memory]
  omega

/-- Every character is counted as one byte or more, and is written as one byte or more. -/
theorem length_writeWideUTF (o : DataOutput) {s : List WChar}
    (hs : (s.map wideCharEncodedLength).sum ≤ 0xFFFF) :
    o.bytes.length + s.length + 2 ≤ (o.writeWideUTF s (len32 s)).bytes.length := by
  have hpos : ∀ c ∈ s, 1 ≤ wideCharEncodedLength c := by
    intro c _
    unfold wideCharEncodedLength
    split_ifs <;> decide
  have hcounted : s.length ≤ (s.map wideCharEncodedLength).sum := by
    simpa using length_le_sum_of_one_le _ (forall_mem_map.mpr hpos)
  have hencoded : s.length ≤ (s.flatMap encodeWideChar).length :=
    length_le_flatMap fun c _ => length_pos_iff.mp (length_encodeWideChar_pos c)
  have hvisited : visited s (len32 s) = s := by
    cases s with
    | nil => rfl
    | cons c cs =>
      rw [visited, if_neg (len32_cons_ne_zero (by omega)), toInt_len32 (by omega)]
      exact take_left
  simp only [writeWideUTF, getWideEncodedLength, hvisited, writeUTFWith, bytes_encodeAll]
  rw [if_neg (by omega)]
  simp [memory, writeInt16, -length_flatMap]
  omega

/-- What one call does. Only a string makes the counter fall behind. -/
theorem step_cases (out : StatDataOutput) {call : Call} (hshort : call.Short) :
    call = .resetBuffer ∧ (out.step call).Exact ∨
    call ≠ .resetBuffer ∧ ∃ n gap, (out.step call).bytesWritten = out.bytesWritten + n ∧
      (out.step call).dataBuffer.bytes.length = out.dataBuffer.bytes.length + n + gap ∧
      (call.IsString ↔ gap ≠ 0) := by
  cases call with
  | resetBuffer => exact .inl ⟨rfl, rfl⟩
  | writeString s =>
    exact .inr ⟨nofun, _, 2, rfl, length_writeASCII _ hshort, by simp [Call.IsString]⟩
  | writeUTF s =>
    obtain ⟨more, hmore⟩ := Nat.exists_eq_add_of_le (length_writeWideUTF out.dataBuffer hshort)
    exact .inr ⟨nofun, _, _, rfl, hmore.trans (Nat.add_assoc _ 2 more), by simp [Call.IsString]⟩
  | _ =>
    exact .inr ⟨nofun, _, 0, rfl, by simp [step, writeInt16, writeInt32, writeInt64],
      by simp [Call.IsString]⟩

/-- A counter that is behind stays so until the buffer is reset. -/
theorem exact_run_iff (out : StatDataOutput) (calls : List Call)
    (hle : out.bytesWritten ≤ out.dataBuffer.bytes.length) (hshort : ∀ call ∈ calls, call.Short) :
    Exact (run step out calls) ↔ (Exact out ∨ .resetBuffer ∈ calls) ∧ StringsReset calls := by
  induction calls generalizing out with
  | nil => simp [StringsReset]
  | cons call calls ih =>
    have hcalls : ∀ c ∈ calls, c.Short := fun c hc => hshort c (mem_cons_of_mem _ hc)
    rw [run_cons, StringsReset]
    obtain ⟨rfl, hexact⟩ | ⟨hne, n, gap, hcount, hbytes, hstring⟩ :=
      step_cases out (hshort call mem_cons_self)
    · rw [ih _ (Nat.le_of_eq hexact) hcalls]
      simp [hexact, Call.IsString]
    · have hexact : Exact (out.step call) ↔ Exact out ∧ ¬ call.IsString := by
        rw [hstring, Exact, Exact, hcount, hbytes]
        omega
      rw [ih _ (by omega) hcalls, hexact, mem_cons]
      tauto

/-- The counter of a new output is the number of bytes in the buffer exactly when every string was
followed by a `resetBuffer`. -/
theorem bytesWritten_exact_iff (calls : List Call) (hshort : ∀ call ∈ calls, call.Short) :
    Exact (run step ⟨⟨[], 8192, false⟩, 0⟩ calls) ↔ StringsReset calls := by
  rw [exact_run_iff _ _ (Nat.le_refl 0) hshort]
  exact and_iff_right (.inl rfl)

theorem bytesWritten_exact_reset : Exact (run step ⟨⟨[], 8192, false⟩, 0⟩
    [.writeString [0x61], .resetBuffer, .writeInt 7]) :=
  (bytesWritten_exact_iff _ (by simp [Call.Short])).mpr (by simp [StringsReset, Call.IsString])

theorem bytesWritten_behind : Call.Short (.writeString [0x61]) ∧
    ¬ Exact (run step ⟨⟨[], 8192, false⟩, 0⟩ [.writeString [0x61]]) :=
  ⟨by simp [Call.Short], show ¬ 1 = 3 by decide⟩

end GeodeNative.Statistics.StatDataOutput
