import Mathlib.Data.List.Basic
import Mathlib.Data.List.TakeWhile

/-!
# Lines

The lines of a text, for a separator : what stands between separators, and what stands behind
the last one if that is not empty. `lineAt` says what the line at an offset is, without a scan.
`scan` reads a text from its front and keeps the unfinished line. `mem_lines` : both mean the
same lines, and `pairwise_lines` : the scan gives them in their order.

A text that is written line by line, with a separator behind each, is split into the same lines
(`splitOn_terminate`), and cut behind a separator it still has the first of them
(`exists_take_terminate`).
-/

namespace Elucid.Lines

open List

/-- A line : its number from one, the offset of its first element, and what it holds. -/
structure Line (α : Type*) where
  number : Nat
  offset : Nat
  content : List α
  terminated : Bool
  deriving DecidableEq

variable {α : Type*} [DecidableEq α] (separator : α)

/-- A line starts at the front and behind each separator. -/
def IsStart (text : List α) (offset : Nat) : Prop :=
  offset = 0 ∨ ∃ index, offset = index + 1 ∧ text[index]? = some separator

/-- The line at an offset. -/
def lineAt (text : List α) (offset : Nat) : Line α where
  number := (text.take offset).count separator + 1
  offset
  content := (text.drop offset).takeWhile (· ≠ separator)
  terminated := separator ∈ text.drop offset

/-- The lines of a text behind an unfinished line. -/
def scan (number offset : Nat) (content : List α) : List α → List (Line α)
  | [] => if content = [] then [] else [⟨number, offset, content, false⟩]
  | element :: rest =>
    if element = separator then
      ⟨number, offset, content, true⟩ :: scan (number + 1) (offset + content.length + 1) [] rest
    else scan number offset (content ++ [element]) rest

/-- The lines of a text. -/
def lines (text : List α) : List (Line α) := scan separator 1 0 [] text

/-! ## The scan -/

variable {separator}

omit [DecidableEq α] in
/-- A start inside an unfinished line is its own. -/
theorem isStart_append_iff {front content rest : List α}
    (hfront : IsStart separator front front.length) (hcontent : separator ∉ content) {offset : Nat}
    (hle : front.length ≤ offset) (hlt : offset ≤ front.length + content.length) :
    IsStart separator (front ++ content ++ rest) offset ↔ offset = front.length := by
  constructor
  · rintro (rfl | ⟨index, rfl, hindex⟩)
    · omega
    · by_contra hne
      have hin : front.length ≤ index := by omega
      rw [append_assoc, getElem?_append_right hin,
        getElem?_append_left (by omega)] at hindex
      exact hcontent (mem_of_getElem? hindex)
  · rintro rfl
    rcases hfront with hzero | ⟨index, hindex, helement⟩
    · exact Or.inl hzero
    · refine Or.inr ⟨index, hindex, ?_⟩
      rw [append_assoc, getElem?_append_left (by omega), helement]

theorem takeWhile_of_not_mem {content rest : List α} (hcontent : separator ∉ content) :
    (content ++ rest).takeWhile (· ≠ separator) =
      content ++ rest.takeWhile (· ≠ separator) :=
  takeWhile_append_of_pos fun element helement => by
    simpa using fun heq : element = separator => hcontent (heq ▸ helement)

theorem lineAt_append {front content rest : List α} (hcontent : separator ∉ content) :
    lineAt separator (front ++ content ++ rest) front.length =
      ⟨front.count separator + 1, front.length, content ++ rest.takeWhile (· ≠ separator),
        separator ∈ rest⟩ := by
  simp only [lineAt, append_assoc, take_left, drop_left]
  rw [takeWhile_of_not_mem hcontent]
  simp [hcontent]

/-- The scan gives the lines from the unfinished one on. -/
theorem mem_scan {front content rest : List α} (hfront : IsStart separator front front.length)
    (hcontent : separator ∉ content) {line : Line α} :
    line ∈ scan separator (front.count separator + 1) front.length content rest ↔
      ∃ offset, front.length ≤ offset ∧ offset < (front ++ content ++ rest).length ∧
        IsStart separator (front ++ content ++ rest) offset ∧
        line = lineAt separator (front ++ content ++ rest) offset := by
  induction rest generalizing front content with
  | nil =>
    rw [scan]
    constructor
    · intro h
      split at h
      · cases h
      · rename_i hne
        obtain rfl := mem_singleton.mp h
        have hpos := length_pos_iff.mpr hne
        refine ⟨front.length, le_rfl, by simpa using hpos,
          (isStart_append_iff hfront hcontent le_rfl (by omega)).mpr rfl, ?_⟩
        rw [lineAt_append hcontent]
        simp
    · rintro ⟨offset, hle, hlt, hstart, rfl⟩
      simp only [append_nil, length_append] at hlt
      obtain rfl := (isStart_append_iff hfront hcontent hle (by omega)).mp hstart
      rw [if_neg (length_pos_iff.mp (by omega)), lineAt_append hcontent]
      simp
  | cons element rest ih =>
    rw [scan]
    split
    · rename_i heq
      subst heq
      have hnext : IsStart element (front ++ content ++ [element])
          (front ++ content ++ [element]).length :=
        Or.inr ⟨(front ++ content).length, length_append, by simp⟩
      have hcount : (front ++ content ++ [element]).count element = front.count element + 1 := by
        simp [count_eq_zero.mpr hcontent]
      have htext : front ++ content ++ element :: rest =
          front ++ content ++ [element] ++ [] ++ rest := by simp
      have hlength : (front ++ content ++ [element]).length =
          front.length + content.length + 1 := by rw [length_append, length_append]; rfl
      have hrest := ih hnext not_mem_nil
      rw [hcount, hlength, ← htext] at hrest
      rw [mem_cons, hrest]
      constructor
      · rintro (rfl | ⟨offset, hle, hlt, hstart, rfl⟩)
        · refine ⟨front.length, le_rfl, by simp only [length_append, length_cons]; omega,
            (isStart_append_iff hfront hcontent le_rfl (by omega)).mpr rfl, ?_⟩
          rw [lineAt_append hcontent]
          simp
        · exact ⟨offset, by omega, hlt, hstart, rfl⟩
      · rintro ⟨offset, hle, hlt, hstart, rfl⟩
        by_cases hoffset : offset ≤ front.length + content.length
        · obtain rfl := (isStart_append_iff hfront hcontent hle hoffset).mp hstart
          refine Or.inl ?_
          rw [lineAt_append hcontent]
          simp
        · exact Or.inr ⟨offset, by omega, hlt, hstart, rfl⟩
    · rename_i hne
      have hcontent' : separator ∉ content ++ [element] := by
        simp [hcontent, Ne.symm hne]
      have htext : front ++ content ++ element :: rest =
          front ++ (content ++ [element]) ++ rest := by simp
      rw [ih hfront hcontent', htext]

/-- The lines of a text are those at the starts in it. -/
theorem mem_lines {text : List α} {line : Line α} :
    line ∈ lines separator text ↔
      ∃ offset < text.length, IsStart separator text offset ∧
        line = lineAt separator text offset := by
  have hfront : IsStart separator [] ([] : List α).length := Or.inl rfl
  have h : line ∈ scan separator 1 0 [] text ↔ _ := mem_scan hfront not_mem_nil
  simpa [lines] using h

theorem le_offset_of_mem_scan {number offset : Nat} {content rest : List α} {line : Line α}
    (h : line ∈ scan separator number offset content rest) :
    number ≤ line.number ∧ offset ≤ line.offset := by
  induction rest generalizing number offset content with
  | nil =>
    rw [scan] at h
    split at h
    · cases h
    · obtain rfl := mem_singleton.mp h
      exact ⟨le_rfl, le_rfl⟩
  | cons element rest ih =>
    rw [scan] at h
    split at h
    · rcases mem_cons.mp h with rfl | h
      · exact ⟨le_rfl, le_rfl⟩
      · have := ih h
        omega
    · exact ih h

theorem pairwise_scan (number offset : Nat) (content rest : List α) :
    (scan separator number offset content rest).Pairwise fun first later =>
      first.number < later.number ∧ first.offset < later.offset := by
  induction rest generalizing number offset content with
  | nil =>
    rw [scan]
    split <;> simp
  | cons element rest ih =>
    rw [scan]
    split
    · refine pairwise_cons.mpr ⟨fun later hlater => ?_, ih _ _ _⟩
      have := le_offset_of_mem_scan hlater
      dsimp only
      omega
    · exact ih _ _ _

/-- The lines come in their order. -/
theorem pairwise_lines (text : List α) :
    (lines separator text).Pairwise fun first later =>
      first.number < later.number ∧ first.offset < later.offset :=
  pairwise_scan _ _ _ _

theorem length_scan {content : List α} (hcontent : separator ∉ content) (number offset : Nat)
    (rest : List α) :
    (scan separator number offset content rest).length =
      rest.count separator + ((content ++ rest).getLast?.any (· ≠ separator)).toNat := by
  induction rest generalizing number offset content with
  | nil =>
    rw [scan, append_nil, count_nil, Nat.zero_add]
    split
    · rename_i hempty
      rw [hempty]
      rfl
    · rename_i hne
      have hlast : content.getLast hne ≠ separator :=
        fun heq => hcontent (heq ▸ getLast_mem hne)
      simp [getLast?_eq_some_getLast hne, hlast]
  | cons element rest ih =>
    rw [scan]
    split
    · rename_i heq
      subst heq
      rw [length_cons, ih not_mem_nil, nil_append, count_cons_self]
      cases rest with
      | nil => simp
      | cons next rest => simp [getLast?_append, getLast?_cons]; omega
    · rename_i hne
      rw [ih (by simp [hcontent, Ne.symm hne]), count_cons_of_ne hne, append_assoc,
        singleton_append]

/-- There is a line for each separator, and one for what stands behind the last. -/
theorem length_lines (text : List α) :
    (lines separator text).length =
      text.count separator + (text.getLast?.any (· ≠ separator)).toNat :=
  length_scan not_mem_nil _ _ _

/-! ## Terminated lines -/

/-- Some contents, with a separator behind each. -/
def terminate (separator : α) (contents : List (List α)) : List α :=
  contents.flatMap (· ++ [separator])

omit [DecidableEq α] in
theorem terminate_eq_intercalate {contents : List (List α)} (h : contents ≠ []) :
    terminate separator contents = [separator].intercalate contents ++ [separator] := by
  induction contents with
  | nil => exact absurd rfl h
  | cons content contents ih =>
    cases contents with
    | nil => simp [terminate]
    | cons next rest =>
      have hrest := ih (cons_ne_nil _ _)
      unfold terminate at hrest ⊢
      rw [flatMap_cons, hrest, intercalate_cons_cons]
      simp

/-- The parts of a text have no separator. -/
theorem not_mem_of_mem_splitOn {text part : List α} (h : part ∈ text.splitOn separator) :
    separator ∉ part := by
  induction text generalizing part with
  | nil =>
    rw [splitOn_nil, mem_singleton] at h
    rw [h]
    exact not_mem_nil
  | cons element text ih =>
    rw [List.splitOn, splitOnP_cons_eq_if_modifyHead] at h
    split at h
    · rcases mem_cons.mp h with rfl | h
      · exact not_mem_nil
      · exact ih h
    · rename_i hne
      obtain ⟨first, rest, hsplit⟩ :=
        exists_cons_of_ne_nil (splitOn_ne_nil separator text)
      rw [← List.splitOn, hsplit, modifyHead_cons] at h
      rcases mem_cons.mp h with rfl | h
      · refine not_mem_cons_of_ne_of_not_mem (fun heq => hne (by simp [heq])) (ih ?_)
        exact hsplit ▸ mem_cons_self
      · exact ih (hsplit ▸ mem_cons_of_mem _ h)

/-- `slice::split` gives the contents back. -/
theorem splitOn_terminate {contents : List (List α)} (h : contents ≠ [])
    (hcontents : ∀ content ∈ contents, separator ∉ content) :
    (terminate separator contents).dropLast.splitOn separator = contents := by
  rw [terminate_eq_intercalate h, dropLast_concat,
    splitOn_intercalate separator hcontents h]

/-- `Iterator::rposition` of an element. -/
def rposition (element : α) (text : List α) : Option Nat :=
  (text.reverse.findIdx? (· = element)).map (text.length - 1 - ·)

/-- The text up to its last separator. -/
def cutBehindLast (separator : α) (text : List α) : Option (List α) :=
  (rposition separator text).map fun last => text.take (last + 1)

theorem cutBehindLast_append {front rest : List α} (h : separator ∉ rest) :
    cutBehindLast separator (front ++ separator :: rest) = some (front ++ [separator]) := by
  have hindex : (front ++ separator :: rest).reverse.findIdx? (· = separator) =
      some rest.length := by
    have hrest : rest.reverse.findIdx? (fun element => decide (element = separator)) = none := by
      rw [findIdx?_eq_none_iff]
      exact fun element helement => decide_eq_false fun heq =>
        h (heq ▸ mem_reverse.mp helement)
    rw [reverse_append, reverse_cons, append_assoc, findIdx?_append, hrest]
    simp [findIdx?_cons]
  have htake : (front ++ separator :: rest).take (front.length + 1) = front ++ [separator] := by
    rw [take_length_add_append]
    simp
  rw [cutBehindLast, rposition, hindex, Option.map_some, Option.map_some, ← htake]
  congr 2
  simp only [length_append, length_cons]
  omega

/-- A front of terminated lines with a separator in it is some of the lines and a part of the
next one. -/
theorem exists_take_terminate {contents : List (List α)}
    (hcontents : ∀ content ∈ contents, separator ∉ content) {length : Nat}
    (h : separator ∈ (terminate separator contents).take length) :
    ∃ count rest, 0 < count ∧ count ≤ contents.length ∧ separator ∉ rest ∧
      (terminate separator contents).take length =
        terminate separator (contents.take count) ++ rest := by
  induction contents generalizing length with
  | nil => simp [terminate] at h
  | cons content contents ih =>
    obtain ⟨hcontent, hcontents⟩ := forall_mem_cons.mp hcontents
    have hcons : terminate separator (content :: contents) =
        (content ++ [separator]) ++ terminate separator contents := flatMap_cons
    rw [hcons, take_append] at h ⊢
    by_cases hlength : length ≤ content.length
    · -- the front ends inside of the first line
      refine absurd h ?_
      rw [show length - (content ++ [separator]).length = 0 by simp; omega, take_zero,
        append_nil, take_append_of_le_length hlength]
      exact fun hmem => hcontent (mem_of_mem_take hmem)
    · have hwhole : (content ++ [separator]).take length = content ++ [separator] :=
        take_of_length_le (by simp; omega)
      rw [hwhole]
      by_cases hlater : separator ∈ (terminate separator contents).take
          (length - (content ++ [separator]).length)
      · obtain ⟨count, rest, hpos, hle, hrest, heq⟩ := ih hcontents hlater
        refine ⟨count + 1, rest, Nat.succ_pos _, Nat.succ_le_succ hle, hrest, ?_⟩
        rw [heq, take_succ_cons]
        simp [terminate]
      · exact ⟨1, _, Nat.one_pos, by simp, hlater, by simp [terminate]⟩

end Elucid.Lines
