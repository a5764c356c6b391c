/-!
# Tables of names

A table binds each name at most once and lists its names in the order of their UTF-8 bytes. The
order is part of the type, so a table is determined by what its look-ups give.
-/

namespace PiScript

namespace Name

def bytes (s : String) : List UInt8 :=
  s.toUTF8.data.toList

/-- Whether the bytes of one name come before those of another. -/
def Precedes (a b : String) : Prop :=
  bytes a < bytes b

instance : DecidableRel Precedes :=
  fun a b => inferInstanceAs (Decidable (bytes a < bytes b))

theorem bytes_inj {a b : String} (h : bytes a = bytes b) : a = b := by
  have hdata : a.toUTF8.data = b.toUTF8.data := Array.toList_inj.mp h
  exact String.toByteArray_inj.mp (ByteArray.ext hdata)

theorem Precedes.trans {a b c : String} (hab : Precedes a b) (hbc : Precedes b c) :
    Precedes a c :=
  List.lt_trans hab hbc

theorem not_precedes_self (a : String) : ¬Precedes a a :=
  List.lt_irrefl (bytes a)

theorem precedes_of_not_precedes {a b : String} (h : ¬Precedes a b) (hne : a ≠ b) :
    Precedes b a := by
  apply Decidable.byContradiction
  intro h'
  exact hne (bytes_inj (List.le_antisymm (List.not_lt.mp h') (List.not_lt.mp h)))

end Name

/-- A table of names in increasing order. -/
structure Bindings (α : Type) where
  entries : List (String × α)
  sorted : entries.Pairwise fun a b => Name.Precedes a.1 b.1

namespace Bindings

variable {α : Type}

def empty : Bindings α :=
  ⟨[], .nil⟩

def get? (b : Bindings α) (name : String) : Option α :=
  b.entries.lookup name

def names (b : Bindings α) : List String :=
  b.entries.map Prod.fst

/-- Puts an entry in its place among others and in the place of one with the same name. -/
def insertEntry (name : String) (v : α) : List (String × α) → List (String × α)
  | [] => [(name, v)]
  | entry :: rest =>
    if Name.Precedes name entry.1 then (name, v) :: entry :: rest
    else if name = entry.1 then (name, v) :: rest
    else entry :: insertEntry name v rest

theorem mem_insertEntry {name : String} {v : α} {entries : List (String × α)}
    {e : String × α} (h : e ∈ insertEntry name v entries) : e = (name, v) ∨ e ∈ entries := by
  induction entries with
  | nil => exact Or.inl (List.mem_singleton.mp h)
  | cons entry rest ih =>
    unfold insertEntry at h
    split at h
    · exact List.mem_cons.mp h
    · split at h
      · rcases List.mem_cons.mp h with h | h
        · exact Or.inl h
        · exact Or.inr (List.mem_cons_of_mem _ h)
      · rcases List.mem_cons.mp h with h | h
        · exact Or.inr (h ▸ List.mem_cons_self)
        · exact (ih h).imp_right (List.mem_cons_of_mem _)

theorem sorted_insertEntry (name : String) (v : α) {entries : List (String × α)}
    (h : entries.Pairwise fun a b => Name.Precedes a.1 b.1) :
    (insertEntry name v entries).Pairwise fun a b => Name.Precedes a.1 b.1 := by
  induction entries with
  | nil => exact List.pairwise_singleton _ _
  | cons entry rest ih =>
    obtain ⟨hentry, hrest⟩ := List.pairwise_cons.mp h
    unfold insertEntry
    split
    -- The entry comes first, takes the place of its namesake, or goes further back.
    · next hlt =>
      refine List.pairwise_cons.mpr ⟨fun e he => ?_, h⟩
      rcases List.mem_cons.mp he with rfl | he
      · exact hlt
      · exact hlt.trans (hentry e he)
    · next hlt =>
      split
      · next heq =>
        exact List.pairwise_cons.mpr ⟨fun e he => heq ▸ hentry e he, hrest⟩
      · next hne =>
        refine List.pairwise_cons.mpr ⟨fun e he => ?_, ih hrest⟩
        rcases mem_insertEntry he with rfl | he
        · exact Name.precedes_of_not_precedes hlt hne
        · exact hentry e he

theorem lookup_insertEntry_self (name : String) (v : α) (entries : List (String × α)) :
    (insertEntry name v entries).lookup name = some v := by
  induction entries with
  | nil => simp [insertEntry]
  | cons entry rest ih =>
    unfold insertEntry
    split
    · simp
    · split
      · simp
      · next hne =>
        have hfalse : (name == entry.1) = false := by simpa using hne
        rw [List.lookup_cons, hfalse]
        exact ih

theorem lookup_insertEntry_of_ne {name other : String} (v : α) (entries : List (String × α))
    (h : other ≠ name) : (insertEntry name v entries).lookup other = entries.lookup other := by
  have hfalse : (other == name) = false := by simpa using h
  induction entries with
  | nil => simp [insertEntry, List.lookup_cons, hfalse]
  | cons entry rest ih =>
    unfold insertEntry
    split
    · rw [List.lookup_cons, hfalse]
    · split
      · next heq =>
        rw [List.lookup_cons, List.lookup_cons, hfalse, ← heq, hfalse]
      · rw [List.lookup_cons, List.lookup_cons, ih]

def insert (b : Bindings α) (name : String) (v : α) : Bindings α :=
  ⟨insertEntry name v b.entries, sorted_insertEntry name v b.sorted⟩

def erase (b : Bindings α) (name : String) : Bindings α :=
  ⟨b.entries.filter (·.1 != name), b.sorted.filter _⟩

/-! ## What look-ups give -/

@[simp]
theorem get?_empty (name : String) : (empty : Bindings α).get? name = none :=
  rfl

@[simp]
theorem get?_insert_self (b : Bindings α) (name : String) (v : α) :
    (b.insert name v).get? name = some v :=
  lookup_insertEntry_self name v b.entries

theorem get?_insert_of_ne (b : Bindings α) {name other : String} (v : α) (h : other ≠ name) :
    (b.insert name v).get? other = b.get? other :=
  lookup_insertEntry_of_ne v b.entries h

theorem lookup_filter_self (name : String) (entries : List (String × α)) :
    (entries.filter (·.1 != name)).lookup name = none := by
  induction entries with
  | nil => rfl
  | cons entry rest ih =>
    rw [List.filter_cons]
    split
    · next hne =>
      have hname : entry.1 ≠ name := by simpa using hne
      have hfalse : (name == entry.1) = false := by simpa using hname.symm
      rw [List.lookup_cons, hfalse]
      exact ih
    · exact ih

theorem lookup_filter_of_ne {name other : String} (entries : List (String × α))
    (h : other ≠ name) : (entries.filter (·.1 != name)).lookup other = entries.lookup other := by
  induction entries with
  | nil => rfl
  | cons entry rest ih =>
    rw [List.filter_cons]
    split
    · rw [List.lookup_cons, List.lookup_cons, ih]
    · next heq =>
      have hname : entry.1 = name := by simpa using heq
      have hfalse : (other == entry.1) = false := by simpa [hname] using h
      rw [List.lookup_cons, hfalse]
      exact ih

@[simp]
theorem get?_erase_self (b : Bindings α) (name : String) : (b.erase name).get? name = none :=
  lookup_filter_self name b.entries

theorem get?_erase_of_ne (b : Bindings α) {name other : String} (h : other ≠ name) :
    (b.erase name).get? other = b.get? other :=
  lookup_filter_of_ne b.entries h

end Bindings

end PiScript
