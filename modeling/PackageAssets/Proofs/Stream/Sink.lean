import PackageAssets.Proofs.Stream.Emits

/-!
# Writing one thing after another

A writer that stands at the end of all it has written to a source in memory puts
its bytes behind the others, as long as a vector can hold all of them.
-/
namespace PackageAssets.Stream

/-- The stream holds `content` in memory and stands at its end. -/
structure Appended (s : Stream) (content : List UInt8) : Prop where
  inMemory : s.source.InMemory
  holds : s.source.content = content
  atRoot : s.window = .root
  atEnd : s.position = content.length
  counted : content.length ≤ Source.longestVector

theorem appended_empty : empty.Appended [] :=
  ⟨⟨Source.initialCapacity, rfl⟩, rfl, rfl, rfl, by decide⟩

theorem overwrite_end (content bytes : List UInt8) :
    Source.overwrite content content.length bytes = content ++ bytes := by
  simp [Source.overwrite, List.rightpad]

namespace Appended

variable {s t : Stream} {content bytes : List UInt8} {step : StreamM Unit}

theorem sink (h : s.Appended content) : s.Sink where
  inMemory := h.inMemory
  within := h.atRoot ▸ trivial
  addressable start stop window := by cases h.atRoot.symm.trans window

theorem absolute (h : s.Appended content) : s.absolute = content.length := by
  rw [Stream.absolute, h.atRoot, h.atEnd, Window.base, Nat.zero_add]

theorem put (h : s.Appended content) (put : s.Put bytes t) : t.Appended (content ++ bytes) where
  inMemory := put.inMemory
  holds := by
    rcases put.content with ⟨-, -, written⟩ | ⟨rfl, same⟩
    · rw [written, h.absolute, h.holds, overwrite_end]
    · rw [same, h.holds, List.append_nil]
  atRoot := put.window.trans h.atRoot
  atEnd := by rw [put.position, h.atEnd, List.length_append]
  counted := by
    rcases put.content with ⟨-, counted, -⟩ | ⟨rfl, -⟩
    · rwa [h.absolute, ← List.length_append] at counted
    · rw [List.append_nil]
      exact h.counted

theorem of_ok (h : s.Appended content) (emits : Emits step bytes) (done : step s = .ok () t) :
    t.Appended (content ++ bytes) := by
  have emitted := emits s h.sink
  rw [done] at emitted
  cases emitted with
  | whole put => exact h.put put

theorem succeeds (h : s.Appended content) (emits : Emits step bytes)
    (fits : content.length + bytes.length ≤ Source.longestVector) :
    ∃ t, step s = .ok () t ∧ t.Appended (content ++ bytes) := by
  have emitted := emits s h.sink
  cases result : step s with
  | ok a t => exact ⟨t, rfl, h.of_ok emits result⟩
  | error e t =>
    rw [result] at emitted
    cases emitted with
    | cut begins crosses put =>
      obtain ⟨start, stop, window⟩ := slice_of_not_fits crosses
      cases h.atRoot.symm.trans window
    | overflow root large =>
      rw [h.absolute] at large
      omega

end Appended

end PackageAssets.Stream
