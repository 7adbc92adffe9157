import Hoststack.Lib.Tokens

/-!
Command lines of a shell, as far as words and alternatives go.

A line is split into words at its blanks, and a word of two bars begins the command that is run
if the one before it fails. Lines with anything else that means something to the shell are not
read; what the first word of a command stands for is not looked at.
-/

namespace Hoststack.Shell

abbrev Word := List Char

def isBlank (c : Char) : Bool := c = ' ' || c = '\t'

/-- The characters that mean something to a shell wherever they stand. -/
def special : List Char :=
  ['\n', '|', '&', ';', '<', '>', '(', ')', '$', '\x60', '\\', '"', '\'', '*', '?', '[', '{', '}']

/-- The character stands for itself. -/
def inert (c : Char) : Bool := !isBlank c && !special.contains c

/-- The word stands for itself: it begins neither a comment nor with a home directory. -/
def isPlain (w : Word) : Bool := w.all inert && w.head?.any fun c => c ≠ '#' && c ≠ '~'

def orElse : Word := ['|', '|']

/-- The commands of a line, each run if those before it fail. -/
def commands (line : List Char) : Option (List (List Word)) :=
  let cs := (tokens isBlank line).splitOn orElse
  if cs.all fun c => !c.isEmpty && c.all isPlain then some cs else none

variable {w : Word} {cs : List (List Word)}

lemma isPlain_iff : isPlain w ↔ (∀ c ∈ w, inert c) ∧ ∃ c ∈ w.head?, c ≠ '#' ∧ c ≠ '~' := by
  simp [isPlain, Option.any_eq_true]

lemma inert_iff {c : Char} : inert c ↔ isBlank c = false ∧ c ∉ special := by
  simp [inert]

lemma not_isPlain_orElse : isPlain orElse = false := by decide

lemma ne_nil_of_isPlain (h : isPlain w) : w ≠ [] := by
  rintro rfl
  simp [isPlain] at h

lemma tokens_line {ws : List Word} (h : ∀ w ∈ ws, isPlain w ∨ w = orElse) :
    tokens isBlank ([' '].intercalate ws) = ws := by
  refine (tokens_intercalate_eq_iff (by decide) ws).mpr fun w hw => ?_
  rcases h w hw with hp | rfl
  · exact ⟨ne_nil_of_isPlain hp, fun c hc => (inert_iff.mp ((isPlain_iff.mp hp).1 c hc)).1⟩
  · exact ⟨by decide, by simp [orElse, isBlank]⟩

lemma mem_intercalate_orElse (hw : w ∈ [orElse].intercalate cs) :
    w = orElse ∨ ∃ c ∈ cs, w ∈ c := by
  induction cs with
  | nil => simp [List.intercalate] at hw
  | cons c cs ih =>
    rcases cs with _ | ⟨d, cs⟩
    · exact Or.inr ⟨c, by simp, by simpa [List.intercalate] using hw⟩
    · have hsplit : [orElse].intercalate (c :: d :: cs) =
          c ++ orElse :: [orElse].intercalate (d :: cs) := by
        simp [List.intercalate, List.intersperse]
      rw [hsplit, List.mem_append, List.mem_cons] at hw
      rcases hw with hw | hw | hw
      · exact Or.inr ⟨c, by simp, hw⟩
      · exact Or.inl hw
      · exact (ih hw).imp_right fun ⟨x, hx, hwx⟩ => ⟨x, List.mem_cons_of_mem _ hx, hwx⟩

/-- **Reading a line back**: a line put together from commands of plain words is read as these
commands. -/
theorem commands_line (hne : cs ≠ []) (h : ∀ c ∈ cs, c ≠ [] ∧ ∀ w ∈ c, isPlain w) :
    commands ([' '].intercalate ([orElse].intercalate cs)) = some cs := by
  have hwords : ∀ w ∈ [orElse].intercalate cs, isPlain w ∨ w = orElse := by
    intro w hw
    rcases mem_intercalate_orElse hw with rfl | ⟨c, hc, hwc⟩
    · exact Or.inr rfl
    · exact Or.inl ((h c hc).2 w hwc)
  have hno : ∀ c ∈ cs, orElse ∉ c := by
    intro c hc hmem
    have := (h c hc).2 _ hmem
    rw [not_isPlain_orElse] at this
    cases this
  unfold commands
  rw [tokens_line hwords, List.splitOn_intercalate _ hno hne, if_pos]
  simpa [List.all_eq_true] using h

end Hoststack.Shell
