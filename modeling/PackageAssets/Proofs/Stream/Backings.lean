import PackageAssets.Proofs.Stream.Flat
import PackageAssets.Proofs.Stream.Requests

/-!
# Buffers and file handles

A buffer hides its room and a file handle its offset. For a buffer that takes the
room behind the bytes that were written to hold zeros, which every write keeps:
then a write is a write to the content, gaps included. A handle goes to its place
before each access, and its calls add up to one, however the system answers them.
So any accesses have the answers a flat array gives, and both kinds of storage
end with its content; they differ in what an empty write beyond the end does.
-/
namespace PackageAssets

open Access (Reply)

/-! ### Buffers -/

namespace Source

/-- Replacing bytes in content with enough zeros behind it is writing to the content. -/
theorem replace_zeros (content : List UInt8) (room position : Nat) (data : List UInt8)
    (enough : position + data.length ≤ content.length + room) :
    Buffer.replace (content ++ List.replicate room 0) position data =
      overwrite content position data ++
        List.replicate (content.length + room - max (position + data.length) content.length) 0 := by
  have front : (content ++ List.replicate room 0).take position =
      (content.take position).rightpad position 0 := by
    rw [List.take_append, List.take_replicate, List.rightpad, List.length_take]
    congr 2
    omega
  have back : (content ++ List.replicate room 0).drop (position + data.length) =
      content.drop (position + data.length) ++ List.replicate
        (content.length + room - max (position + data.length) content.length) 0 := by
    rw [List.drop_append, List.drop_replicate]
    congr 2
    omega
  rw [Buffer.replace, front, back, overwrite, List.append_assoc, List.append_assoc,
    List.append_assoc]

end Source

namespace Buffer

variable {b : Buffer}

/-- The room behind the bytes that were written holds zeros. -/
def Clean (b : Buffer) : Prop :=
  b.bytes = b.content ++ List.replicate (b.capacity - b.length) 0

theorem length_content (b : Buffer) : b.content.length = b.length := List.length_take_of_le b.inside

/-- A buffer with some content and room behind it. -/
def roomy (content : List UInt8) (room : Nat) : Buffer :=
  ⟨content ++ List.replicate room 0, content.length, by simp⟩

theorem content_roomy (content : List UInt8) (room : Nat) :
    (roomy content room).content = content := List.take_left

theorem clean_roomy (content : List UInt8) (room : Nat) : (roomy content room).Clean := by
  rw [Clean, content_roomy]
  simp [roomy, capacity]

theorem readAt_eq (b : Buffer) (position count : Nat) :
    b.readAt position count = Source.bytesAt b.content position count := by
  unfold readAt
  by_cases beyond : b.length ≤ position
  · rw [if_pos beyond, Source.bytesAt, List.drop_of_length_le, List.take_nil]
    rwa [length_content]
  · rw [if_neg beyond, Source.bytesAt, Source.bytesAt, content, List.drop_take, List.take_take]

/-- A write to a clean buffer is a write to its content, and leaves it clean. -/
theorem write_clean (clean : b.Clean) (position : Nat) (data : List UInt8) :
    (b.write position data).content = Source.overwrite b.content position data ∧
      (b.write position data).Clean := by
  obtain ⟨room, grown⟩ : ∃ room, ensure b.bytes (position + data.length) =
      b.content ++ List.replicate room 0 := by
    rw [ensure, List.rightpad, clean, List.append_assoc,
      List.replicate_append_replicate]
    exact ⟨_, rfl⟩
  have size := congrArg List.length grown
  have most := le_grown b.bytes.length (position + data.length)
  rw [length_ensure, List.length_append, List.length_replicate] at size
  have written := Source.replace_zeros b.content room position data (by omega)
  have bytes : (b.write position data).bytes = _ := (congrArg (replace · position data) grown).trans
    written
  have length : (b.write position data).length =
      (Source.overwrite b.content position data).length := by
    rw [Source.length_overwrite, length_content]
    exact Nat.max_comm ..
  have content : (b.write position data).content = Source.overwrite b.content position data := by
    rw [Buffer.content, bytes, length, List.take_left]
  refine ⟨content, ?_⟩
  rw [Clean, content, capacity, bytes, length, List.length_append, List.length_replicate,
    Nat.add_sub_cancel_left]

/-! ### The source a buffer is -/

/-- The source as which cursors see a buffer. -/
def toSource (b : Buffer) : Source := ⟨b.content, .memory b.capacity⟩

theorem readAt_toSource (b : Buffer) (position count : Nat) :
    b.toSource.readAt position count = .ok (b.readAt position count) := by
  rw [readAt_eq]
  rfl

theorem writeAt_toSource (clean : b.Clean) (position : Nat) (data : List UInt8) :
    b.toSource.writeAt position data = (b.writeAt position data).map toSource := by
  obtain ⟨content, -⟩ := write_clean clean position data
  have written : (b.write position data).capacity =
      Source.grown b.capacity (position + data.length) := by
    have longer : b.bytes.length ≤ Source.grown b.bytes.length (position + data.length) := by
      unfold Source.grown
      split <;> omega
    exact (length_written ..).trans (Nat.max_eq_right longer)
  rw [writeAt]
  cases counted : Count.add? position data.length with
  | none => simp [Source.writeAt, toSource, counted, Except.map]
  | some stop =>
    obtain ⟨rfl, -⟩ := Count.add?_eq_some.mp counted
    by_cases long : Source.longestVector < position + data.length
    · simp [Source.writeAt, toSource, counted, long, Except.map]
    · simp [Source.writeAt, toSource, counted, long, Except.map, content, written]

/-- Bytes that end inside the longest vector are taken. -/
theorem writeAt_of_short (b : Buffer) {position : Nat} {data : List UInt8}
    (short : position + data.length ≤ Source.longestVector) :
    b.writeAt position data = .ok (b.write position data) := by
  have counted : Count.add? position data.length = some (position + data.length) :=
    Count.add?_eq_some.mpr ⟨rfl, Nat.lt_of_le_of_lt short (by decide)⟩
  simp [writeAt, counted, Nat.not_lt.mpr short]

end Buffer

/-! ### File handles -/

namespace Handle

/-- Calls that are answered in part read what one call reads that is answered in full. -/
theorem fill_eq (grants : List Grant) (count : Nat) (h : Handle) :
    fill grants count h = read count h := by
  induction grants generalizing count h with
  | nil => rfl
  | cons grant grants ih =>
    cases grant with
    | interrupted => exact ih count h
    | atMost more =>
      generalize part : Source.bytesAt h.content h.offset (min count (more + 1)) = bytes
      have size : bytes.length ≤ min count (more + 1) := by
        rw [← part]
        exact List.length_take_le ..
      have first : read (min count (more + 1)) h =
          .ok bytes { h with offset := h.offset + bytes.length } := by rw [read, part]
      rw [fill, bind_of_ok first]
      by_cases done : bytes = []
      · have empty : Source.bytesAt h.content h.offset count = [] := by
          subst done
          rcases List.take_eq_nil_iff.mp part with none | past
          · rw [show count = 0 by omega]
            exact List.take_zero
          · rw [Source.bytesAt, past, List.take_nil]
        rw [if_pos done, read, empty, done]
        rfl
      · have later := ih (count - bytes.length) { h with offset := h.offset + bytes.length }
        have front : Source.bytesAt h.content h.offset bytes.length = bytes := by
          rw [← part, Source.bytesAt_length]
        have whole := Source.bytesAt_add h.content h.offset bytes.length (count - bytes.length)
        rw [Nat.add_sub_of_le (by omega), front] at whole
        rw [read] at later
        rw [if_neg done, bind_of_ok later, read, whole, List.length_append, ← Nat.add_assoc]
        rfl

theorem write_append (front back : List UInt8) (h : Handle) :
    (do
      write front
      write back : HandleM Unit) h = write (front ++ back) h := by
  by_cases writable : h.writable = true
  · have first : write front h = .ok () { h with
        content := Source.overwrite h.content h.offset front
        offset := h.offset + front.length } := if_pos writable
    rw [bind_of_ok first]
    simp [write, writable, Source.overwrite_overwrite, Nat.add_assoc]
  · have refused : ∀ bytes, write bytes h = .error (.storage .readOnly) h := fun _ =>
      if_neg writable
    rw [bind_of_error (refused front), refused]

/-- So do calls that write in parts. -/
theorem writeAll_eq (grants : List Grant) (bytes : List UInt8) (h : Handle) :
    writeAll grants bytes h = if bytes = [] then .ok () h else write bytes h := by
  induction grants generalizing bytes h with
  | nil =>
    rw [writeAll]
    split <;> rfl
  | cons grant grants ih =>
    cases grant with
    | interrupted => exact ih bytes h
    | atMost more =>
      by_cases done : bytes = []
      · rw [writeAll, if_pos done, if_pos done]
        rfl
      · have parts := List.take_append_drop (more + 1) bytes
        rw [writeAll, if_neg done, if_neg done]
        by_cases last : bytes.drop (more + 1) = []
        · rw [last, List.append_nil] at parts
          rw [last, parts]
          cases written : write bytes h with
          | ok _ t => exact (bind_of_ok written).trans (ih [] t)
          | error e t => exact bind_of_error written
        · have rest : writeAll grants (bytes.drop (more + 1)) = write (bytes.drop (more + 1)) := by
            funext t
            rw [ih, if_neg last]
          rw [rest, write_append, parts]

section

variable {position : Nat} {h : Handle}

theorem seek_near (near : position ≤ h.furthest) :
    seek position h = .ok () { h with offset := position } := if_neg (Nat.not_lt.mpr near)

theorem seek_far (far : ¬position ≤ h.furthest) :
    seek position h = .error (.storage .badPosition) h := if_pos (Nat.lt_of_not_le far)

variable (grants : List Grant) (position)

/-- Wherever the handle stood, bytes are read at their place. -/
theorem readAt_eq (count : Nat) (near : position ≤ h.furthest) :
    ∃ offset, readAt grants position count h =
      .ok (Source.bytesAt h.content position count) { h with offset := offset } := by
  refine ⟨position + (Source.bytesAt h.content position count).length, ?_⟩
  rw [readAt, bind_of_ok (seek_near near), fill_eq]
  rfl

/-- So they are written; but no call is made for none. -/
theorem writeAt_eq (data : List UInt8) (near : position ≤ h.furthest) :
    writeAt grants position data h =
      if data = [] then .ok () { h with offset := position }
      else write data { h with offset := position } := by
  rw [writeAt, bind_of_ok (seek_near near), writeAll_eq]

end

/-! ### The source a handle is -/

/-- The source as which cursors see a handle. -/
def toSource (h : Handle) : Source := ⟨h.content, .file h.writable h.furthest⟩

theorem readAt_toSource (grants : List Grant) (position count : Nat) (h : Handle) :
    h.toSource.readAt position count = outcomeOf (readAt grants position count h) := by
  by_cases near : position ≤ h.furthest
  · obtain ⟨offset, read⟩ := readAt_eq position grants count near
    rw [read]
    exact if_neg (Nat.not_lt.mpr near)
  · rw [readAt, bind_of_error (seek_far near)]
    exact if_pos (Nat.lt_of_not_le near)

theorem writeAt_toSource (grants : List Grant) (position : Nat) (data : List UInt8) (h : Handle) :
    h.toSource.writeAt position data =
      (outcomeOf (writeAt grants position data h)).map fun _ =>
        (leftBy (writeAt grants position data h)).toSource := by
  unfold Source.writeAt toSource
  dsimp only
  by_cases near : position ≤ h.furthest
  · rw [writeAt_eq position grants data near, if_neg (Nat.not_lt.mpr near)]
    by_cases none : data = []
    · rw [if_pos none, if_pos none]
      rfl
    · rw [if_neg none, if_neg none, write]
      by_cases writable : h.writable = true
      · rw [if_pos writable, if_pos writable]
        rfl
      · rw [if_neg writable, if_neg writable]
        rfl
  · rw [writeAt, bind_of_error (seek_far near), if_pos (Nat.lt_of_not_le near)]
    rfl

end Handle

/-! ### Any accesses -/

namespace Access

/-- The access stays below the positions a file can have. -/
def Near : Access → Prop
  | read position count => position + count < 2 ^ 63
  | write position data => position + data.length < 2 ^ 63
  | length => True

instance decidableNear : (access : Access) → Decidable access.Near
  | read position count => inferInstanceAs (Decidable (position + count < 2 ^ 63))
  | write position data => inferInstanceAs (Decidable (position + data.length < 2 ^ 63))
  | length => isTrue trivial

/-- What holds between two kinds of storage before and after every access holds after all of them,
and the answers are the same. -/
theorem runAll_simulates {σ τ α β : Type} {step : α → σ → Reply × σ} {other : β → τ → Reply × τ}
    (counterpart : α → β) {alike : σ → τ → Prop} {admitted : α → Prop}
    (each : ∀ access s t, admitted access → alike s t →
      (step access s).1 = (other (counterpart access) t).1 ∧
        alike (step access s).2 (other (counterpart access) t).2)
    {accesses : List α} (all : ∀ access ∈ accesses, admitted access) {s : σ} {t : τ}
    (start : alike s t) :
    (runAll step accesses s).1 = (runAll other (accesses.map counterpart) t).1 ∧
      alike (runAll step accesses s).2 (runAll other (accesses.map counterpart) t).2 := by
  induction accesses generalizing s t with
  | nil => exact ⟨rfl, start⟩
  | cons access rest ih =>
    obtain ⟨first, later⟩ := List.forall_mem_cons.mp all
    obtain ⟨same, next⟩ := each access s t first start
    obtain ⟨others, last⟩ := ih later next
    exact ⟨congr (congrArg List.cons same) others, last⟩

end Access

/-- A clean buffer with the content of a flat array. -/
structure Buffer.Shows (b : Buffer) (f : Flat) : Prop where
  clean : b.Clean
  content : Flat.ofBytes b.content = f

theorem Buffer.access_shows (access : Access) (b : Buffer) (f : Flat) (near : access.Near)
    (shows : b.Shows f) :
    (b.access access).1 = (f.access true access).1 ∧
      (b.access access).2.Shows (f.access true access).2 := by
  obtain ⟨clean, rfl⟩ := shows
  cases access with
  | read position count =>
    refine ⟨?_, clean, rfl⟩
    rw [Buffer.access, Flat.access, readAt_eq, Flat.read_ofBytes]
  | write position data =>
    have written := b.writeAt_of_short (Nat.le_pred_of_lt near)
    obtain ⟨content, stays⟩ := write_clean clean position data
    have grows : ¬(data = [] ∧ true = false) := by simp
    rw [Buffer.access, written, Flat.access, if_neg grows]
    refine ⟨rfl, stays, ?_⟩
    rw [content, Flat.ofBytes_overwrite]
  | length => exact ⟨congrArg Reply.length b.length_content.symm, clean, rfl⟩

/-- A handle on a file with the content of a flat array, open for writing. -/
structure Handle.Shows (h : Handle) (f : Flat) : Prop where
  writable : h.writable = true
  wide : 2 ^ 63 ≤ h.furthest + 1
  content : Flat.ofBytes h.content = f

theorem Handle.access_shows (step : Access × List Grant) (h : Handle) (f : Flat)
    (near : step.1.Near) (shows : h.Shows f) :
    (h.access step).1 = (f.access false step.1).1 ∧
      (h.access step).2.Shows (f.access false step.1).2 := by
  obtain ⟨writable, wide, rfl⟩ := shows
  obtain ⟨access, grants⟩ := step
  cases access with
  | read position count =>
    have inside : position + count < 2 ^ 63 := near
    obtain ⟨offset, read⟩ := readAt_eq (h := h) position grants count (by omega)
    rw [Handle.access, Flat.access, read, Flat.read_ofBytes]
    exact ⟨rfl, writable, wide, rfl⟩
  | write position data =>
    have inside : position + data.length < 2 ^ 63 := near
    have written := writeAt_eq (h := h) position grants data (by omega)
    rw [Handle.access, Flat.access, written]
    by_cases none : data = []
    · rw [if_pos none, if_pos ⟨none, rfl⟩]
      exact ⟨rfl, writable, wide, rfl⟩
    · have some : ¬(data = [] ∧ false = false) := fun empty => none empty.1
      rw [if_neg none, if_neg some, write, if_pos writable]
      exact ⟨rfl, writable, wide, Flat.ofBytes_overwrite ..⟩
  | length => exact ⟨rfl, writable, wide, rfl⟩

namespace Flat

/-- No empty write is made beyond the length. -/
def Plain : List Access → Flat → Prop
  | [], _ => True
  | access :: rest, f =>
    (∀ position, access = .write position [] → position ≤ f.length) ∧
      Plain rest (f.access true access).2

/-- An empty write up to the length changes nothing. -/
theorem write_nil {f : Flat} {position : Nat} (inside : position ≤ f.length) :
    f.write position [] = f := by
  have length : max f.length (position + 0) = f.length := Nat.max_eq_left inside
  have cells : (fun i => if position ≤ i ∧ i < position + 0 then
      ([] : List UInt8).getD (i - position) 0 else f.cell i) = f.cell := by
    funext i
    rw [if_neg (by omega)]
  exact congr (congrArg Flat.mk length) cells

/-- The rules for empty writes differ only beyond the length. -/
theorem runAll_plain {accesses : List Access} {f : Flat} (plain : f.Plain accesses) :
    Access.runAll (access true) accesses f = Access.runAll (access false) accesses f := by
  induction accesses generalizing f with
  | nil => rfl
  | cons access rest ih =>
    obtain ⟨first, later⟩ := plain
    have same : f.access true access = f.access false access := by
      cases access with
      | read | length => rfl
      | write position data =>
        by_cases none : data = []
        · subst none
          have stays := write_nil (first position rfl)
          simp [Flat.access, stays]
        · simp [Flat.access, none]
    rw [Access.runAll, Access.runAll, ← same]
    dsimp only
    rw [ih later]

end Flat

section Gaps

variable {b : Buffer} (clean : b.Clean) {position : Nat} (far : b.length ≤ position)
  (data : List UInt8) (near : position + data.length < 2 ^ 63)

include clean far near

/-- A write beyond the end puts zeros before its bytes, which read back. -/
theorem Buffer.access_beyond :
    let gap := List.replicate (position - b.length) 0
    let written := b.access (.write position data)
    written.1 = .written ∧ written.2.content = b.content ++ (gap ++ data) ∧
      (written.2.access (.read b.length (position - b.length))).1 = .bytes gap := by
  have written : b.access (.write position data) = (.written, b.write position data) := by
    rw [Buffer.access, b.writeAt_of_short (Nat.le_pred_of_lt near)]
  have length := b.length_content
  have content : (b.write position data).content =
      b.content ++ (List.replicate (position - b.length) 0 ++ data) := by
    rw [(write_clean clean position data).1, Source.overwrite_beyond _ _ _ (length ▸ far), length]
  intro gap written'
  have size : gap.length = position - b.length := List.length_replicate
  rw [show written' = _ from written]
  refine ⟨rfl, content, congrArg Reply.bytes ?_⟩
  rw [readAt_eq, content, Source.bytesAt, List.drop_left' length]
  exact List.take_left' size

end Gaps

/-- An empty write to a file moves the offset and changes nothing else. -/
theorem Handle.access_write_nil {h : Handle} {position : Nat} (near : position ≤ h.furthest)
    (grants : List Grant) :
    h.access (.write position [], grants) = (.written, { h with offset := position }) := by
  rw [Handle.access, writeAt_eq position grants [] near, if_pos rfl]
  rfl

/--
A buffer in memory and a file handle have the answers of a flat array that holds zeros behind its
content, and end with its content, whatever the room of the buffer and the offset of the handle
were at first and however the system answers its calls. So they agree, unless an empty write is made
beyond the length: then the buffer gets longer by zeros, and the file stays as it is. A gap reads
back as zeros.
-/
theorem backings_refine_flat (content : List UInt8) (room offset furthest : Nat)
    (wide : 2 ^ 63 ≤ furthest + 1) (steps : List (Access × List Grant))
    (near : ∀ step ∈ steps, step.1.Near) :
    let accesses := steps.map Prod.fst
    let flat := Flat.ofBytes content
    let memory := Access.runAll Buffer.access accesses (.roomy content room)
    let file := Access.runAll Handle.access steps ⟨content, offset, true, furthest⟩
    (memory.1, Flat.ofBytes memory.2.content) = Access.runAll (Flat.access true) accesses flat ∧
      (file.1, Flat.ofBytes file.2.content) = Access.runAll (Flat.access false) accesses flat ∧
      (flat.Plain accesses → memory.1 = file.1 ∧ memory.2.content = file.2.content) ∧
      ∀ position data grants, memory.2.length ≤ position → position + data.length < 2 ^ 63 →
        let gap := List.replicate (position - memory.2.length) 0
        let written := memory.2.access (.write position data)
        (written.1 = .written ∧ written.2.content = memory.2.content ++ (gap ++ data) ∧
          (written.2.access (.read memory.2.length (position - memory.2.length))).1 = .bytes gap) ∧
          (data = [] → file.2.access (.write position data, grants) =
            (.written, { file.2 with offset := position })) := by
  intro accesses flat memory file
  have nearAll : ∀ access ∈ accesses, access.Near := by
    intro access member
    obtain ⟨step, inside, rfl⟩ := List.mem_map.mp member
    exact near step inside
  have inMemory := Access.runAll_simulates id Buffer.access_shows nearAll
    ⟨Buffer.clean_roomy content room, congrArg Flat.ofBytes (Buffer.content_roomy content room)⟩
  have onDisk := Access.runAll_simulates Prod.fst Handle.access_shows near
    (s := ⟨content, offset, true, furthest⟩) (t := flat) ⟨rfl, wide, rfl⟩
  rw [List.map_id] at inMemory
  obtain ⟨replies, shows⟩ := inMemory
  obtain ⟨replies', shows'⟩ := onDisk
  refine ⟨?_, ?_, ?_, ?_⟩
  · exact Prod.ext replies shows.content
  · exact Prod.ext replies' shows'.content
  · intro plain
    have same := Flat.runAll_plain plain
    refine ⟨?_, Flat.ofBytes_injective ?_⟩
    · exact replies.trans ((congrArg Prod.fst same).trans replies'.symm)
    · exact shows.content.trans ((congrArg Prod.snd same).trans shows'.content.symm)
  · intro position data grants far inside
    refine ⟨Buffer.access_beyond shows.clean far data inside, fun none => ?_⟩
    have wide : 2 ^ 63 ≤ file.2.furthest + 1 := shows'.wide
    rw [none]
    exact Handle.access_write_nil (by omega) grants

/-- A gap is written and read, in parts; then an empty write is made beyond the end. -/
theorem backings_refine_flat_gap :
    let steps := [(.write 4 [8, 9], [.interrupted, .atMost 0]), (.read 1 9, [.atMost 1]),
      (.length, [])]
    let memory := Access.runAll Buffer.access (steps.map Prod.fst) (.roomy [1, 2] 1)
    let file := Access.runAll Handle.access steps ⟨[1, 2], 7, true, 2 ^ 63 - 1⟩
    memory.1 = [.written, .bytes [2, 0, 0, 8, 9], .length 6] ∧ file.1 = memory.1 ∧
      file.2.content = memory.2.content ∧
      (memory.2.access (.write 9 [])).2.content = [1, 2, 0, 0, 8, 9, 0, 0, 0] ∧
      file.2.access (.write 9 [], []) = (.written, { file.2 with offset := 9 }) := by
  intro steps memory file
  have near : ∀ step ∈ steps, step.1.Near := by decide
  obtain ⟨-, -, agree, beyond⟩ :=
    backings_refine_flat [1, 2] 1 7 (2 ^ 63 - 1) (by decide) steps near
  have plain : (Flat.ofBytes [1, 2]).Plain (steps.map Prod.fst) := ⟨nofun, nofun, nofun, trivial⟩
  obtain ⟨answers, content⟩ := agree plain
  obtain ⟨⟨-, grown, -⟩, kept⟩ := beyond 9 [] [] (by decide) (by decide)
  exact ⟨rfl, answers.symm, content.symm, grown, kept rfl⟩

end PackageAssets
