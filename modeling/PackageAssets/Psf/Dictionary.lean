import PackageAssets.Psf.Value

/-!
# Dictionaries

A dictionary maps keys to values and lists them in the order of the bytes of
the keys. Inserting a key that is there replaces its value.
-/
namespace PackageAssets.Psf

/-- Keys are in the order of their bytes. -/
def KeyLt (a b : String) : Prop := Text.utf8 a < Text.utf8 b

instance (a b : String) : Decidable (KeyLt a b) :=
  inferInstanceAs (Decidable (Text.utf8 a < Text.utf8 b))

theorem KeyLt.trans {a b c : String} (h : KeyLt a b) (h' : KeyLt b c) : KeyLt a c :=
  List.lt_trans h h'

theorem utf8_eq_of_not_keyLt {a b : String} (h : ¬KeyLt a b) (h' : ¬KeyLt b a) :
    Text.utf8 a = Text.utf8 b :=
  List.le_antisymm h' h

/-- Puts a key in its place in an ascending list. -/
def insertPair (key : String) (value : Value) : List (String × Value) → List (String × Value)
  | [] => [(key, value)]
  | (k, v) :: rest =>
    if KeyLt key k then (key, value) :: (k, v) :: rest
    else if KeyLt k key then (k, v) :: insertPair key value rest
    else (key, value) :: rest

theorem mem_insertPair {key : String} {value : Value} {l : List (String × Value)}
    {p : String × Value} (h : p ∈ insertPair key value l) : p = (key, value) ∨ p ∈ l := by
  induction l with
  | nil => simpa [insertPair] using h
  | cons q rest ih =>
    rw [insertPair] at h
    split at h
    · simpa using h
    · split at h
      · rcases List.mem_cons.mp h with rfl | h
        · simp
        · rcases ih h with rfl | h
          · simp
          · simp [h]
      · rcases List.mem_cons.mp h with rfl | h
        · simp
        · simp [h]

theorem pairwise_insertPair {key : String} {value : Value} {l : List (String × Value)}
    (h : l.Pairwise fun a b => KeyLt a.1 b.1) :
    (insertPair key value l).Pairwise fun a b => KeyLt a.1 b.1 := by
  induction l with
  | nil => simp [insertPair]
  | cons q rest ih =>
    rw [List.pairwise_cons] at h
    rw [insertPair]
    split
    · rename_i hlt
      refine List.pairwise_cons.mpr ⟨?_, List.pairwise_cons.mpr h⟩
      intro p hp
      rcases List.mem_cons.mp hp with rfl | hp
      · exact hlt
      · exact hlt.trans (h.1 p hp)
    · split
      · rename_i hlt
        refine List.pairwise_cons.mpr ⟨?_, ih h.2⟩
        intro p hp
        rcases mem_insertPair hp with rfl | hp
        · exact hlt
        · exact h.1 p hp
      · rename_i hle hge
        refine List.pairwise_cons.mpr ⟨?_, h.2⟩
        intro p hp
        have hp := h.1 p hp
        unfold KeyLt at hp ⊢
        rw [utf8_eq_of_not_keyLt hle hge]
        exact hp

structure Dictionary where
  pairs : List (String × Value)
  ascending : pairs.Pairwise fun a b => KeyLt a.1 b.1

namespace Dictionary

def empty : Dictionary := ⟨[], List.Pairwise.nil⟩

def insert (d : Dictionary) (key : String) (value : Value) : Dictionary :=
  ⟨insertPair key value d.pairs, pairwise_insertPair d.ascending⟩

def get? (d : Dictionary) (key : String) : Option Value := d.pairs.lookup key

/-- Later pairs replace earlier ones with the same key. -/
def ofPairs (pairs : List (String × Value)) : Dictionary :=
  pairs.foldl (fun d pair => d.insert pair.1 pair.2) empty

def size (d : Dictionary) : Nat := d.pairs.length

end Dictionary

end PackageAssets.Psf
