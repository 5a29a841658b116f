import Mathlib.Algebra.GroupWithZero.Nat
import Mathlib.Data.List.Nodup

/-! Texts that are changed at byte positions. Replacements in any order, spliced into a text, leave
the rest of it as it is, if they stand apart from each other. -/
namespace Axonyx.Edits

section Positions

/-- The number of bytes of a text. -/
def byteLength (text : List Char) : Nat := (text.map Char.utf8Size).sum

def isCharBoundary : List Char → Nat → Bool
  | _, 0 => true
  | [], _ + 1 => false
  | c :: rest, place => c.utf8Size ≤ place && isCharBoundary rest (place - c.utf8Size)

def dropBytes : List Char → Nat → List Char
  | text, 0 => text
  | [], _ => []
  | c :: rest, place => dropBytes rest (place - c.utf8Size)

def takeBytes : List Char → Nat → List Char
  | _, 0 => []
  | [], _ => []
  | c :: rest, place => c :: takeBytes rest (place - c.utf8Size)

/-- The text between two byte positions. -/
def slice (text : List Char) (start stop : Nat) : List Char := takeBytes (dropBytes text start) (stop - start)

@[simp] theorem byteLength_nil : byteLength [] = 0 := rfl

@[simp] theorem byteLength_cons (c : Char) (rest : List Char) : byteLength (c :: rest) = c.utf8Size + byteLength rest := by
  simp [byteLength]

@[simp] theorem byteLength_append (a b : List Char) : byteLength (a ++ b) = byteLength a + byteLength b := by
  simp [byteLength]

theorem byteLength_pos {text : List Char} (some : text ≠ []) : 0 < byteLength text := by
  obtain ⟨c, rest, rfl⟩ := List.exists_cons_of_ne_nil some
  have wide := c.utf8Size_pos
  rw [byteLength_cons]
  omega

theorem bytes_cons (c : Char) (rest : List Char) : ∃ n, byteLength (c :: rest) = n + 1 ∧
    n + 1 - c.utf8Size = byteLength rest ∧ c.utf8Size ≤ n + 1 := by
  have wide := c.utf8Size_pos
  refine ⟨byteLength (c :: rest) - 1, ?_⟩
  rw [byteLength_cons]
  omega

theorem isCharBoundary_append (a b : List Char) : isCharBoundary (a ++ b) (byteLength a) = true := by
  induction a with
  | nil => rw [byteLength_nil, isCharBoundary]
  | cons c rest ih =>
    obtain ⟨n, size, less, wide⟩ := bytes_cons c rest
    rw [size, List.cons_append, isCharBoundary, less, ih]
    · simp [wide]
    · exact Nat.succ_ne_zero n

theorem dropBytes_append (a b : List Char) : dropBytes (a ++ b) (byteLength a) = b := by
  induction a with
  | nil => rw [byteLength_nil, dropBytes]; rfl
  | cons c rest ih =>
    obtain ⟨n, size, less, _⟩ := bytes_cons c rest
    rw [size, List.cons_append, dropBytes, less, ih]
    exact Nat.succ_ne_zero n

theorem takeBytes_append (a b : List Char) : takeBytes (a ++ b) (byteLength a) = a := by
  induction a with
  | nil => rw [byteLength_nil, takeBytes]
  | cons c rest ih =>
    obtain ⟨n, size, less, _⟩ := bytes_cons c rest
    rw [size, List.cons_append, takeBytes, less, ih]
    exact Nat.succ_ne_zero n

/-- The middle of a text is found by its position. -/
theorem slice_middle {text : List Char} {start stop : Nat} (a middle b : List Char) (shape : text = a ++ (middle ++ b))
    (begins : start = byteLength a) (ends : stop = byteLength a + byteLength middle) : slice text start stop = middle := by
  subst shape begins ends
  rw [slice, dropBytes_append, Nat.add_sub_cancel_left, takeBytes_append]

end Positions

section Splicing

/-- A new text for the bytes between two positions. -/
structure Replacement where
  start : Nat
  stop : Nat
  text : List Char

def spliceFrom (code : List Char) : List Replacement → Nat → List Char → Option (List Char)
  | [], cursor, output => some (output ++ dropBytes code cursor)
  | replacement :: rest, cursor, output =>
    if replacement.start < cursor ∨ byteLength code < replacement.stop ∨
        isCharBoundary code replacement.start = false ∨ isCharBoundary code replacement.stop = false then none
    else spliceFrom code rest replacement.stop (output ++ slice code cursor replacement.start ++ replacement.text)

/-- The replacements are sorted by their starts and put in one after the other. -/
def splice (code : List Char) (replacements : List Replacement) : Option (List Char) :=
  spliceFrom code (replacements.mergeSort fun a b => a.start ≤ b.start) 0 []

end Splicing

section Pieces

/-- A part of a text that stays, or that becomes another text. -/
inductive Piece where
  | kept (text : List Char)
  | changed (old new : List Char)

def Piece.old : Piece → List Char
  | .kept text => text
  | .changed old _ => old

def Piece.new : Piece → List Char
  | .kept text => text
  | .changed _ new => new

@[simp] theorem Piece.old_kept (text : List Char) : (Piece.kept text).old = text := rfl

@[simp] theorem Piece.old_changed (old new : List Char) : (Piece.changed old new).old = old := rfl

@[simp] theorem Piece.new_kept (text : List Char) : (Piece.kept text).new = text := rfl

@[simp] theorem Piece.new_changed (old new : List Char) : (Piece.changed old new).new = new := rfl

def olds (pieces : List Piece) : List Char := pieces.flatMap Piece.old

def news (pieces : List Piece) : List Char := pieces.flatMap Piece.new

/-- The replacements for pieces that begin at a position. -/
def edits : Nat → List Piece → List Replacement
  | _, [] => []
  | place, .kept text :: rest => edits (place + byteLength text) rest
  | place, .changed old new :: rest => ⟨place, place + byteLength old, new⟩ :: edits (place + byteLength old) rest

@[simp] theorem olds_cons (piece : Piece) (pieces : List Piece) : olds (piece :: pieces) = piece.old ++ olds pieces := rfl

@[simp] theorem news_cons (piece : Piece) (pieces : List Piece) : news (piece :: pieces) = piece.new ++ news pieces := rfl

@[simp] theorem olds_nil : olds [] = [] := rfl

@[simp] theorem news_nil : news [] = [] := rfl

@[simp] theorem olds_append (a b : List Piece) : olds (a ++ b) = olds a ++ olds b := List.flatMap_append

@[simp] theorem news_append (a b : List Piece) : news (a ++ b) = news a ++ news b := List.flatMap_append

theorem edits_append (place : Nat) (a b : List Piece) :
    edits place (a ++ b) = edits place a ++ edits (place + byteLength (olds a)) b := by
  induction a generalizing place with
  | nil => rfl
  | cons piece rest ih =>
    cases piece with
    | kept text => simp [edits, ih, olds, Nat.add_assoc]
    | changed old new => simp [edits, ih, olds, Nat.add_assoc]

@[simp] theorem edits_kept (place : Nat) (text : List Char) (rest : List Piece) :
    edits place (.kept text :: rest) = edits (place + byteLength text) rest := rfl

/-- No text is put in between two letters. -/
def Solid (pieces : List Piece) : Prop := ∀ old new, Piece.changed old new ∈ pieces → old ≠ []

theorem solid_append {a b : List Piece} (first : Solid a) (second : Solid b) : Solid (a ++ b) := by
  intro old new member
  rcases List.mem_append.mp member with left | right
  · exact first old new left
  · exact second old new right

theorem solid_kept {rest : List Piece} (text : List Char) (solid : Solid rest) : Solid (.kept text :: rest) := by
  intro old new member
  rcases List.mem_cons.mp member with same | behind
  · cases same
  · exact solid old new behind

theorem solid_nil : Solid [] := fun _ _ member => nomatch member

theorem edits_after {place : Nat} {pieces : List Piece} : ∀ edit ∈ edits place pieces, place ≤ edit.start := by
  induction pieces generalizing place with
  | nil => exact fun _ member => nomatch member
  | cons piece rest ih =>
    intro edit member
    cases piece with
    | kept text => exact Nat.le_of_add_right_le (ih edit member)
    | changed old new =>
      rcases List.mem_cons.mp member with rfl | behind
      · exact Nat.le_refl place
      · exact Nat.le_of_add_right_le (ih edit behind)

theorem edits_increasing {place : Nat} {pieces : List Piece} (solid : Solid pieces) :
    (edits place pieces).Pairwise fun a b => a.start < b.start := by
  induction pieces generalizing place with
  | nil => exact List.Pairwise.nil
  | cons piece rest ih =>
    have later : Solid rest := fun old new member => solid old new (List.mem_cons_of_mem _ member)
    cases piece with
    | kept text => exact ih later
    | changed old new =>
      refine List.Pairwise.cons (fun edit member => ?_) (ih later)
      have wide := byteLength_pos (solid old new List.mem_cons_self)
      have beyond := edits_after edit member
      show place < edit.start
      omega

theorem spliceFrom_edits (pieces : List Piece) (code front gap output : List Char)
    (shape : code = front ++ (gap ++ olds pieces)) :
    spliceFrom code (edits (byteLength front + byteLength gap) pieces) (byteLength front) output =
      some (output ++ (gap ++ news pieces)) := by
  induction pieces generalizing front gap output with
  | nil => rw [edits, spliceFrom, shape, dropBytes_append]; rfl
  | cons piece rest ih =>
    cases piece with
    | kept text =>
      have same := ih front (gap ++ text) output (by simp [shape, olds])
      rw [byteLength_append, ← Nat.add_assoc] at same
      rw [edits, same]
      simp [news]
    | changed old new =>
      have whole : code = (front ++ gap ++ old) ++ olds rest := by simp [shape, olds]
      have start : byteLength front + byteLength gap = byteLength (front ++ gap) := by simp
      have stop : byteLength front + byteLength gap + byteLength old = byteLength (front ++ gap ++ old) := by
        simp [Nat.add_assoc]
      have between : slice code (byteLength front) (byteLength front + byteLength gap) = gap :=
        slice_middle front gap (old ++ olds rest) (by simp [whole]) rfl rfl
      have opened : isCharBoundary code (byteLength front + byteLength gap) = true := by
        rw [start, whole, List.append_assoc (front ++ gap)]
        exact isCharBoundary_append _ _
      have closed : isCharBoundary code (byteLength front + byteLength gap + byteLength old) = true := by
        rw [stop, whole]
        exact isCharBoundary_append _ _
      have inside : byteLength front + byteLength gap + byteLength old ≤ byteLength code := by
        rw [whole]
        simp only [byteLength_append]
        omega
      rw [edits, spliceFrom, if_neg]
      · have same := ih (front ++ gap ++ old) [] (output ++ gap ++ new) (by simp [whole])
        rw [← stop, byteLength_nil, Nat.add_zero] at same
        rw [between, same]
        simp [news]
      · simp only [opened, closed, Bool.true_eq_false, or_false, not_or, Nat.not_lt]
        exact ⟨Nat.le_add_right _ _, inside⟩

/-- Replacements in any order give the new text of all pieces. -/
theorem splice_pieces {pieces : List Piece} {replacements : List Replacement} (solid : Solid pieces)
    (same : replacements.Perm (edits 0 pieces)) : splice (olds pieces) replacements = some (news pieces) := by
  have increasing := @edits_increasing 0 pieces solid
  have sorted : replacements.mergeSort (fun a b => a.start ≤ b.start) = edits 0 pieces := by
    have perm := (List.mergeSort_perm replacements fun a b => decide (a.start ≤ b.start)).trans same
    have first := @List.pairwise_mergeSort Replacement (fun a b => decide (a.start ≤ b.start))
      (fun a b c => by simpa using Nat.le_trans) (fun a b => by simpa using Nat.le_total a.start b.start) replacements
    have second : (edits 0 pieces).Pairwise fun a b => decide (a.start ≤ b.start) = true :=
      increasing.imp fun less => decide_eq_true (Nat.le_of_lt less)
    apply List.Perm.eq_of_pairwise _ first second perm
    intro a b left right less more
    have starts : ((edits 0 pieces).map Replacement.start).Nodup :=
      List.pairwise_map.mpr (increasing.imp fun less => Nat.ne_of_lt less)
    exact List.inj_on_of_nodup_map starts (perm.subset left) right
      (Nat.le_antisymm (of_decide_eq_true less) (of_decide_eq_true more))
  rw [splice, sorted]
  exact spliceFrom_edits pieces (olds pieces) [] [] [] rfl

end Pieces

end Axonyx.Edits
