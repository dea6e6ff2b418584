import PackageAssets.Proofs.Stream.Steps
import PackageAssets.Proofs.Text.RoundTrip
import PackageAssets.Psf.Decoder

/-!
# What a dictionary holds

Inserting changes what is found under one key. So a dictionary made of pairs
holds the last pair of each key, and pairs that ascend make themselves. The
reader makes such a dictionary of the pairs it has looked up.
-/
namespace PackageAssets.Psf

theorem KeyLt.irrefl (a : String) : ¬KeyLt a a := List.lt_irrefl _

theorem KeyLt.asymm {a b : String} (h : KeyLt a b) : ¬KeyLt b a :=
  fun h' => irrefl a (h.trans h')

theorem eq_of_not_keyLt {a b : String} (h : ¬KeyLt a b) (h' : ¬KeyLt b a) : a = b :=
  Text.utf8_injective (utf8_eq_of_not_keyLt h h')

theorem lookup_pair_cons (key k : String) (v : Value) (l : List (String × Value)) :
    ((k, v) :: l).lookup key = if key = k then some v else l.lookup key := by
  rw [List.lookup_cons]
  by_cases same : key = k
  · rw [if_pos same, beq_iff_eq.mpr same]
  · rw [if_neg same, beq_eq_false_iff_ne.mpr same]

theorem lookup_insertPair (key k : String) (v : Value) (l : List (String × Value)) :
    (insertPair k v l).lookup key = if key = k then some v else l.lookup key := by
  induction l with
  | nil => exact lookup_pair_cons key k v []
  | cons p rest ih =>
    obtain ⟨first, value⟩ := p
    rw [insertPair]
    by_cases before : KeyLt k first
    · rw [if_pos before, lookup_pair_cons]
    rw [if_neg before]
    by_cases after : KeyLt first k
    · rw [if_pos after, lookup_pair_cons, lookup_pair_cons, ih]
      by_cases found : key = first
      · have other : key ≠ k := by
          rintro rfl
          rw [found] at after
          exact KeyLt.irrefl _ after
        rw [if_pos found, if_neg other, if_pos found]
      · rw [if_neg found, if_neg found]
    · have same : first = k := eq_of_not_keyLt after before
      rw [if_neg after, lookup_pair_cons, lookup_pair_cons, same]
      by_cases found : key = k
      · rw [if_pos found, if_pos found]
      · rw [if_neg found, if_neg found, if_neg found]

/-- Behind smaller keys a pair goes to the end. -/
theorem insertPair_of_below {k : String} {l : List (String × Value)}
    (below : ∀ p ∈ l, KeyLt p.1 k) (v : Value) : insertPair k v l = l ++ [(k, v)] := by
  induction l with
  | nil => rfl
  | cons p rest ih =>
    obtain ⟨first, others⟩ := List.forall_mem_cons.mp below
    rw [insertPair, if_neg first.asymm, if_pos first, ih others]
    rfl

namespace Dictionary

theorem get?_insert (d : Dictionary) (key k : String) (v : Value) :
    (d.insert k v).get? key = if key = k then some v else d.get? key :=
  lookup_insertPair key k v d.pairs

/-- The last of the inserted pairs with a key counts. -/
theorem get?_foldl_insert (pairs : List (String × Value)) (d : Dictionary) (key : String) :
    (pairs.foldl (fun d pair => d.insert pair.1 pair.2) d).get? key =
      (pairs.reverse.lookup key).or (d.get? key) := by
  induction pairs generalizing d with
  | nil => rfl
  | cons p pairs ih =>
    rw [List.foldl_cons, ih, get?_insert, List.reverse_cons, List.lookup_append, Option.or_assoc]
    congr 1
    rw [lookup_pair_cons]
    by_cases same : key = p.1
    · rw [if_pos same, if_pos same]
      rfl
    · rw [if_neg same, if_neg same]
      rfl

theorem get?_ofPairs (pairs : List (String × Value)) (key : String) :
    (ofPairs pairs).get? key = pairs.reverse.lookup key := by
  rw [ofPairs, get?_foldl_insert]
  exact Option.or_none

theorem ext {d e : Dictionary} (h : d.pairs = e.pairs) : d = e := by
  cases d
  cases e
  cases h
  rfl

instance : DecidableEq Dictionary := fun d e =>
  decidable_of_iff (d.pairs = e.pairs) ⟨ext, congrArg pairs⟩

theorem pairs_foldl_insert {pairs : List (String × Value)}
    (ascending : pairs.Pairwise fun a b => KeyLt a.1 b.1) {d : Dictionary}
    (below : ∀ p ∈ d.pairs, ∀ q ∈ pairs, KeyLt p.1 q.1) :
    (pairs.foldl (fun d pair => d.insert pair.1 pair.2) d).pairs = d.pairs ++ pairs := by
  induction pairs generalizing d with
  | nil => exact (List.append_nil _).symm
  | cons p pairs ih =>
    obtain ⟨first, others⟩ := List.pairwise_cons.mp ascending
    have inserted : (d.insert p.1 p.2).pairs = d.pairs ++ [p] :=
      insertPair_of_below (fun q hq => below q hq p List.mem_cons_self) p.2
    have later : ∀ q ∈ (d.insert p.1 p.2).pairs, ∀ r ∈ pairs, KeyLt q.1 r.1 := by
      intro q hq r hr
      rw [inserted, List.mem_append, List.mem_singleton] at hq
      rcases hq with hq | rfl
      · exact below q hq r (List.mem_cons_of_mem p hr)
      · exact first r hr
    rw [List.foldl_cons, ih others later, inserted, List.append_assoc]
    rfl

/-- A dictionary is made of its own pairs. -/
theorem ofPairs_pairs (d : Dictionary) : ofPairs d.pairs = d := by
  apply ext
  rw [ofPairs, pairs_foldl_insert d.ascending]
  · rfl
  · intro p hp
    exact absurd hp List.not_mem_nil

end Dictionary

/-- Of descending pairs that are changed, the first to get a key is the greatest that does. -/
theorem lookup_map_descending {f : String × Value → String × Value} {l : List (String × Value)}
    (descending : l.Pairwise fun a b => KeyLt b.1 a.1) (key : String) (v : Value) :
    (l.map f).lookup key = some v ↔
      ∃ p ∈ l, f p = (key, v) ∧ ∀ q ∈ l, (f q).1 = key → ¬KeyLt p.1 q.1 := by
  induction l with
  | nil => simp
  | cons p l ih =>
    obtain ⟨first, others⟩ := List.pairwise_cons.mp descending
    have known : (f p :: l.map f).lookup key =
        if key = (f p).1 then some (f p).2 else (l.map f).lookup key := lookup_pair_cons key _ _ _
    rw [List.map_cons, known]
    by_cases named : key = (f p).1
    · rw [if_pos named]
      constructor
      · intro found
        refine ⟨p, List.mem_cons_self, ?_, ?_⟩
        · rw [← Option.some.inj found, named]
        · intro q hq _
          rcases List.mem_cons.mp hq with rfl | hq
          · exact KeyLt.irrefl _
          · exact (first q hq).asymm
      · rintro ⟨q, hq, hf, greatest⟩
        rcases List.mem_cons.mp hq with rfl | hq
        · rw [hf]
        · exact absurd (first q hq) (greatest p List.mem_cons_self named.symm)
    · rw [if_neg named, ih others]
      constructor
      · rintro ⟨q, hq, hf, greatest⟩
        refine ⟨q, List.mem_cons_of_mem p hq, hf, ?_⟩
        intro r hr hkey
        rcases List.mem_cons.mp hr with rfl | hr
        · exact absurd hkey.symm named
        · exact greatest r hr hkey
      · rintro ⟨q, hq, hf, greatest⟩
        rcases List.mem_cons.mp hq with rfl | hq
        · exact absurd (congrArg Prod.fst hf).symm named
        · exact ⟨q, hq, hf, fun r hr => greatest r (List.mem_cons_of_mem p hr)⟩

/-! ### The dictionary of a reader -/

theorem collect_eq (pairs : List (String × Value)) (d : Dictionary) (r : Decoder) :
    ∃ notes, collect pairs d r =
      .ok (pairs.foldl (fun d pair => d.insert pair.1 pair.2) d) { r with notes } := by
  induction pairs generalizing d r with
  | nil => exact ⟨r.notes, rfl⟩
  | cons pair pairs ih =>
    obtain ⟨key, value⟩ := pair
    rw [collect]
    cases d.get? key with
    | none =>
      obtain ⟨notes, hrest⟩ := ih (d.insert key value) r
      exact ⟨notes, hrest⟩
    | some previous =>
      obtain ⟨notes, hrest⟩ := ih (d.insert key value) ⟨r.stream, r.found, r.notes ++ [⟨.warn,
        .tableReader, s!"Duplicate PSF key {key}, replacing {previous.inspect}"⟩]⟩
      exact ⟨notes, hrest⟩

theorem decode_of_decodePairs {r after : Decoder} {pairs : List (String × Value)}
    (read : decodePairs r = .ok pairs after) :
    ∃ final, decode r = .ok (.ofPairs pairs) final := by
  obtain ⟨notes, hcollect⟩ := collect_eq pairs .empty after
  rw [decode, bind_of_ok read]
  exact ⟨_, hcollect⟩

end PackageAssets.Psf
