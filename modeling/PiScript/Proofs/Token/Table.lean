import PiScript.Token.Keyword

/-!
# The table of keywords

The fifteen keywords written out, and the kinds of words read off that table. Matching a word
against the digits of π and looking at its length gives the same kinds (`kindOfWord_eq`).
-/

namespace PiScript

namespace Token

def keywordTable : List (String × TokenKind) :=
  [("3.", .lineEnd), ("3.1", .declare), ("3.14", .branch), ("3.141", .loop),
   ("3.1415", .operator .add), ("3.14159", .operator .subtract),
   ("3.141592", .operator .multiply), ("3.1415926", .operator .divide),
   ("3.14159265", .endBlock), ("3.141592653", .forEach), ("3.1415926535", .call),
   ("3.14159265358", .operator .equal), ("3.141592653589", .operator .notEqual),
   ("3.1415926535897", .operator .greater), ("3.14159265358979", .operator .smaller)]

def tableKind (word : List Char) : TokenKind :=
  (keywordTable.lookup (String.ofList word)).getD .malformed

/-- The kind of a word: a marker, a word between plus signs, a keyword of the table, or nothing. -/
def specifiedKind (word : List Char) : TokenKind :=
  if word = ['-', '-'] then .dashes
  else if word = ['*', '*'] then .stars
  else if 2 ≤ word.length ∧ word.head? = some '+' ∧ word.getLast? = some '+' then .operand
  else tableKind word

theorem isPrefixOf_of_mem_keywordTable :
    ∀ entry ∈ keywordTable,
      ['3', '.'].isPrefixOf entry.1.toList = true ∧ entry.1.toList.isPrefixOf piDigits = true := by
  decide +kernel

/-- Only leading pieces of the digits stand in the table. -/
theorem tableKind_of_not_isPrefixOf {word : List Char}
    (h : ¬(['3', '.'].isPrefixOf word = true ∧ word.isPrefixOf piDigits = true)) :
    tableKind word = .malformed := by
  have hnone : keywordTable.lookup (String.ofList word) = none := by
    rw [List.lookup_eq_none_iff]
    intro entry hentry
    rw [bne_iff_ne]
    intro heq
    apply h
    have hlead := isPrefixOf_of_mem_keywordTable entry hentry
    rwa [← heq, String.toList_ofList] at hlead
  rw [tableKind, hnone]
  rfl

theorem keywordKind_take :
    ∀ n : Fin (piDigits.length + 1),
      keywordKind (piDigits.take n) = tableKind (piDigits.take n) := by
  decide +kernel

theorem keywordKind_eq_tableKind (word : List Char) : keywordKind word = tableKind word := by
  by_cases hdigits : word.isPrefixOf piDigits = true
  -- A leading piece is given by its length, and there are finitely many lengths.
  · have hlead : word <+: piDigits := List.isPrefixOf_iff_prefix.mp hdigits
    have hword : word = piDigits.take word.length := List.prefix_iff_eq_take.mp hlead
    have hlength : word.length < piDigits.length + 1 := Nat.lt_succ_of_le hlead.length_le
    rw [hword]
    exact keywordKind_take ⟨word.length, hlength⟩
  · rw [tableKind_of_not_isPrefixOf (fun hboth => hdigits hboth.2), keywordKind, if_neg hdigits]

theorem isQuoted_iff (word : List Char) :
    isQuoted word = true ↔
      2 ≤ word.length ∧ word.head? = some '+' ∧ word.getLast? = some '+' := by
  simp [isQuoted, and_assoc]

theorem kindOfWord_eq (word : List Char) : kindOfWord word = specifiedKind word := by
  unfold kindOfWord specifiedKind
  by_cases hdashes : word = ['-', '-']
  · rw [if_pos hdashes, if_pos hdashes]
  · by_cases hstars : word = ['*', '*']
    · rw [if_neg hdashes, if_neg hdashes, if_pos hstars, if_pos hstars]
    · rw [if_neg hdashes, if_neg hdashes, if_neg hstars, if_neg hstars]
      simp only [isQuoted_iff]
      split
      · rfl
      · by_cases hpi : ['3', '.'].isPrefixOf word = true
        · rw [if_pos hpi, keywordKind_eq_tableKind]
        · rw [if_neg hpi, tableKind_of_not_isPrefixOf (fun hboth => hpi hboth.1)]

theorem kindOfLength_ne_eof (n : Nat) : kindOfLength n ≠ .eof := by
  unfold kindOfLength
  split <;> simp

theorem specifiedKind_ne_eof (word : List Char) : specifiedKind word ≠ .eof := by
  rw [← kindOfWord_eq, kindOfWord]
  -- Markers, operands, keywords and malformed words, in the order of the definition.
  repeat' split
  · simp
  · simp
  · simp
  · unfold keywordKind
    split
    · exact kindOfLength_ne_eof _
    · simp
  · simp

end Token

end PiScript
