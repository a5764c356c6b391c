import PiScript.CommandLine

/-!
# Lines of input

The input of a session is cut into lines before it is decoded. A line of text that comes out of this
is not empty, and only its last character can be a line feed: no other character has the byte of a
line feed in its encoding.
-/

namespace PiScript

namespace CommandLine

/-- A line as it is read: there is something in it, and nothing behind a line feed. -/
structure IsLine (line : String) : Prop where
  ne_empty : line ≠ ""
  eq_nil_of_lineFeed : ∀ a b, line.toList = a ++ '\n' :: b → b = []

theorem ne_nil_of_mem_splitBytes {bytes line : List UInt8} (h : line ∈ splitBytes bytes) :
    line ≠ [] := by
  fun_induction splitBytes bytes with
  | case1 => simp at h
  | case2 rest ih =>
    rcases List.mem_cons.mp h with rfl | h
    · simp
    · exact ih h
  | case3 b rest hb hrest ih =>
    obtain rfl := List.mem_singleton.mp h
    simp
  | case4 b rest hb first lines hrest ih =>
    rcases List.mem_cons.mp h with rfl | h
    · simp
    · exact ih (by rw [hrest]; exact List.mem_cons_of_mem _ h)

/-- No line goes on behind its line feed. -/
theorem eq_nil_of_mem_splitBytes {bytes line a b : List UInt8} (h : line ∈ splitBytes bytes)
    (hline : line = a ++ 10 :: b) : b = [] := by
  fun_induction splitBytes bytes generalizing line a with
  | case1 => simp at h
  | case2 rest ih =>
    rcases List.mem_cons.mp h with rfl | h
    · cases a with
      | nil => exact (List.cons.inj hline).2.symm
      | cons x a => simp at hline
    · exact ih h hline
  | case3 c rest hc hrest ih =>
    obtain rfl := List.mem_singleton.mp h
    cases a with
    | nil => exact (List.cons.inj hline).2.symm
    | cons x a => simp at hline
  | case4 c rest hc first lines hrest ih =>
    rcases List.mem_cons.mp h with rfl | h
    · cases a with
      -- The byte in front of the first line is no line feed.
      | nil => exact absurd (List.cons.inj hline).1 hc
      | cons x a => exact ih (by rw [hrest]; exact List.mem_cons_self) (List.cons.inj hline).2
    · exact ih (by rw [hrest]; exact List.mem_cons_of_mem _ h) hline

theorem toByteArray_of_fromUTF8? {bytes : ByteArray} {line : String}
    (h : String.fromUTF8? bytes = some line) : line.toByteArray = bytes := by
  unfold String.fromUTF8? at h
  split at h
  · cases h
    rfl
  · cases h

theorem isLine_of_mem_inputLines {input : ByteArray} {line : String}
    (h : some line ∈ inputLines input) : IsLine line := by
  obtain ⟨bytes, hmem, hdecode⟩ := List.mem_map.mp h
  have hbytes := toByteArray_of_fromUTF8? hdecode
  constructor
  · rintro rfl
    have hnil : bytes = [] := congrArg (fun b => b.data.toList) hbytes.symm
    exact ne_nil_of_mem_splitBytes hmem hnil
  · intro a b hline
    have hencode : line.toByteArray = a.utf8Encode ++ (['\n'].utf8Encode ++ b.utf8Encode) := by
      rw [← String.utf8Encode_toList, hline, List.utf8Encode_append, List.utf8Encode_cons]
    have hcut : bytes = a.utf8Encode.data.toList ++ 10 :: b.utf8Encode.data.toList := by
      have hdata := congrArg (fun x : ByteArray => x.data.toList) (hbytes.symm.trans hencode)
      simp only [ByteArray.data_append, Array.toList_append] at hdata
      exact hdata
    have hnil := eq_nil_of_mem_splitBytes hmem hcut
    apply List.utf8Encode_eq_empty.mp
    exact ByteArray.ext (Array.toList_eq_nil_iff.mp hnil)

end CommandLine

end PiScript
