import Mathlib.Data.List.TakeWhile
import Mathlib.Tactic.SplitIfs

/-!
Reading the options of a command line word by word, as `getopt_long` does, and the grammar of the
command lines that are read to their end.

Options of one letter may share a word, long ones may be cut short as far as it is clear which is
meant, and an argument is what is left of the word or the next word. Unless an operand ends the
options, the operands in between are put behind them.
-/

namespace Hoststack.Getopt

abbrev Word := List Char

structure LongOption where
  name : Word
  takesArg : Bool
  val : Char

/-- The options there are. `ordered` says that an operand ends them. -/
structure Spec where
  ordered : Bool
  short : Word
  long : List LongOption

/-- An option that is read, with its argument. -/
structure Opt where
  val : Char
  arg : Option Word

def isOption : Word → Bool
  | '-' :: _ :: _ => true
  | _ => false

namespace Spec

variable (S : Spec)

/-- Whether a letter is an option, and whether it takes an argument: a colon is behind it. -/
def takesArg (c : Char) : Option Bool :=
  if c = ':' ∨ c = ';' then none
  else
    match S.short.dropWhile fun c' => c' ≠ c with
    | [] => none
    | _ :: rest => some (rest.head? = some ':')

/-- The option with a name, or else the one that all names beginning so mean. -/
def findLong (name : Word) : Option LongOption :=
  match S.long.find? fun o => o.name = name with
  | some o => some o
  | none =>
    match S.long.filter fun o => name.isPrefixOf o.name with
    | [] => none
    | o :: os =>
      if os.all fun o' => o'.takesArg = o.takesArg && o'.val = o.val then some o else none

end Spec

/-- Where the reading stands: the operands passed over, the letters left of the word before, and
the words to come. -/
structure Scan where
  skipped : List Word
  next : Word
  args : List Word

inductive Result where
  | opt (o : Opt)
  | bad
  | done

namespace Spec

variable (S : Spec)

/-- An option of one letter, with what is behind it. -/
def readShort (c : Char) (next : Word) (s : Scan) : Result × Scan :=
  match S.takesArg c with
  | none => (.bad, { s with next })
  | some false => (.opt ⟨c, none⟩, { s with next })
  | some true =>
    match next, s.args with
    | [], [] => (.bad, { s with next := [] })
    | [], arg :: args => (.opt ⟨c, some arg⟩, { s with next := [], args })
    | _, _ => (.opt ⟨c, some next⟩, { s with next := [] })

/-- A long option, without its two hyphens. -/
def readLong (text : Word) (s : Scan) : Result × Scan :=
  match S.findLong (text.takeWhile fun c => c ≠ '=') with
  | none => (.bad, s)
  | some o =>
    match text.dropWhile fun c => c ≠ '=' with
    | _ :: value => if o.takesArg then (.opt ⟨o.val, some value⟩, s) else (.bad, s)
    | [] =>
      if o.takesArg then
        match s.args with
        | [] => (.bad, s)
        | arg :: args => (.opt ⟨o.val, some arg⟩, { s with args })
      else (.opt ⟨o.val, none⟩, s)

/-- What the next word begins, if none is under way. -/
def readWord (s : Scan) : Result × Scan :=
  match s.args with
  | [] => (.done, s)
  | ['-', '-'] :: args => (.done, { s with args })
  | ('-' :: '-' :: text) :: args => S.readLong text { s with args }
  | ('-' :: c :: next) :: args => S.readShort c next { s with args }
  | _ => (.done, s)

/-- `getopt_long`: the next option, with what is then left. -/
def getoptLong (s : Scan) : Result × Scan :=
  match s.next with
  | c :: next => S.readShort c next s
  | [] =>
    if S.ordered then S.readWord s
    else
      S.readWord
        { s with
          skipped := s.skipped ++ s.args.takeWhile fun w => !isOption w
          args := s.args.dropWhile fun w => !isOption w }

variable {α : Type*}

/-- The loop around `getopt_long`, which is left for good at a word that is not understood. -/
def loop (f : α → Opt → α) : ℕ → α → Scan → Option (α × List Word)
  | 0, _, _ => none
  | fuel + 1, a, s =>
    match S.getoptLong s with
    | (.opt o, s) => loop f fuel (f a o) s
    | (.bad, _) => none
    | (.done, s) => some (a, s.skipped ++ s.args)

end Spec

/-- How much there is left to read. -/
def Scan.size (s : Scan) : ℕ := s.next.length + s.args.flatten.length + s.args.length

/-- Read a command line to its end: what the options make of `a`, and the operands. -/
def Spec.read {α : Type*} (S : Spec) (f : α → Opt → α) (a : α) (args : List Word) :
    Option (α × List Word) :=
  S.loop f ((⟨[], [], args⟩ : Scan).size + 1) a ⟨[], [], args⟩

/-! ### The grammar -/

/-- `Reads S next args opts operands`: the letters `next` and the words `args` behind them are the
options `opts` and the operands `operands`. -/
inductive Reads (S : Spec) : Word → List Word → List Opt → List Word → Prop where
  | nil : Reads S [] [] [] []
  | endOfOptions (args : List Word) : Reads S [] (['-', '-'] :: args) [] args
  | operand {w : Word} (args : List Word) (ordered : S.ordered = true) (hw : isOption w = false) :
      Reads S [] (w :: args) [] (w :: args)
  | skip {w : Word} {args : List Word} {opts : List Opt} {operands : List Word}
      (ordered : S.ordered = false) (hw : isOption w = false)
      (rest : Reads S [] args opts operands) : Reads S [] (w :: args) opts (w :: operands)
  | cluster {c : Char} {next : Word} {args : List Word} {opts : List Opt} {operands : List Word}
      (hc : c ≠ '-') (rest : Reads S (c :: next) args opts operands) :
      Reads S [] (('-' :: c :: next) :: args) opts operands
  | flag {c : Char} {next : Word} {args : List Word} {opts : List Opt} {operands : List Word}
      (hc : S.takesArg c = some false) (rest : Reads S next args opts operands) :
      Reads S (c :: next) args (⟨c, none⟩ :: opts) operands
  | attached {c : Char} {arg : Word} {args : List Word} {opts : List Opt} {operands : List Word}
      (hc : S.takesArg c = some true) (harg : arg ≠ []) (rest : Reads S [] args opts operands) :
      Reads S (c :: arg) args (⟨c, some arg⟩ :: opts) operands
  | separate {c : Char} {arg : Word} {args : List Word} {opts : List Opt} {operands : List Word}
      (hc : S.takesArg c = some true) (rest : Reads S [] args opts operands) :
      Reads S [c] (arg :: args) (⟨c, some arg⟩ :: opts) operands
  | longFlag {name : Word} {o : LongOption} {args : List Word} {opts : List Opt}
      {operands : List Word} (hne : name ≠ []) (hname : '=' ∉ name)
      (ho : S.findLong name = some o) (harg : o.takesArg = false)
      (rest : Reads S [] args opts operands) :
      Reads S [] (('-' :: '-' :: name) :: args) (⟨o.val, none⟩ :: opts) operands
  | longAttached {name arg : Word} {o : LongOption} {args : List Word} {opts : List Opt}
      {operands : List Word} (hname : '=' ∉ name) (ho : S.findLong name = some o)
      (harg : o.takesArg = true) (rest : Reads S [] args opts operands) :
      Reads S [] (('-' :: '-' :: (name ++ '=' :: arg)) :: args) (⟨o.val, some arg⟩ :: opts) operands
  | longSeparate {name arg : Word} {o : LongOption} {args : List Word} {opts : List Opt}
      {operands : List Word} (hne : name ≠ []) (hname : '=' ∉ name)
      (ho : S.findLong name = some o) (harg : o.takesArg = true)
      (rest : Reads S [] args opts operands) :
      Reads S [] (('-' :: '-' :: name) :: arg :: args) (⟨o.val, some arg⟩ :: opts) operands

variable {S : Spec} {α : Type*} {f : α → Opt → α} {s s' : Scan} {o : Opt} {c : Char}
variable {w next : Word} {args skipped operands : List Word} {opts : List Opt}

/-! ### One step -/

lemma readShort_next (s : Scan) (next' : Word) :
    S.readShort c next { s with next := next' } = S.readShort c next s := by
  unfold Spec.readShort
  rcases S.takesArg c with _ | _ | _
  · rfl
  · rfl
  · rcases next with _ | ⟨d, next⟩ <;> rcases s.args with _ | ⟨arg, args⟩ <;> rfl

/-- The letters behind a hyphen are read as those left of a word before. -/
lemma getoptLong_cluster (hc : c ≠ '-') (skipped : List Word) :
    S.getoptLong ⟨skipped, [], ('-' :: c :: next) :: args⟩ =
      S.getoptLong ⟨skipped, c :: next, args⟩ := by
  have hword : S.readWord ⟨skipped, [], ('-' :: c :: next) :: args⟩ =
      S.readShort c next ⟨skipped, c :: next, args⟩ := by
    unfold Spec.readWord
    split
    · simp_all
    · simp_all
    · simp_all
    · rename_i c' next' args' _ _ heq
      simp only [List.cons.injEq, true_and] at heq
      obtain ⟨⟨rfl, rfl⟩, rfl⟩ := heq
      exact readShort_next ⟨skipped, c :: next, args⟩ []
    · simp_all
  by_cases hordered : S.ordered
  · simp [Spec.getoptLong, hordered, hword]
  · simp [Spec.getoptLong, hordered, isOption, hword]

lemma getoptLong_skip (hordered : S.ordered = false) (hw : isOption w = false)
    (skipped args : List Word) :
    S.getoptLong ⟨skipped, [], w :: args⟩ = S.getoptLong ⟨skipped ++ [w], [], args⟩ := by
  simp [Spec.getoptLong, hordered, hw]

lemma getoptLong_long {text : Word} (hne : text ≠ []) (skipped args : List Word) :
    S.getoptLong ⟨skipped, [], ('-' :: '-' :: text) :: args⟩ =
      S.readLong text ⟨skipped, [], args⟩ := by
  obtain ⟨d, text, rfl⟩ := List.exists_cons_of_ne_nil hne
  by_cases hordered : S.ordered <;> simp [Spec.getoptLong, hordered, isOption, Spec.readWord]

lemma getoptLong_end (skipped args : List Word) :
    S.getoptLong ⟨skipped, [], ['-', '-'] :: args⟩ = (.done, ⟨skipped, [], args⟩) := by
  by_cases hordered : S.ordered <;> simp [Spec.getoptLong, hordered, isOption, Spec.readWord]

lemma getoptLong_nil (skipped : List Word) :
    S.getoptLong ⟨skipped, [], []⟩ = (.done, ⟨skipped, [], []⟩) := by
  by_cases hordered : S.ordered <;> simp [Spec.getoptLong, hordered, Spec.readWord]

lemma getoptLong_operand (hordered : S.ordered = true) (hw : isOption w = false)
    (skipped args : List Word) :
    S.getoptLong ⟨skipped, [], w :: args⟩ = (.done, ⟨skipped, [], w :: args⟩) := by
  simp only [Spec.getoptLong, hordered, if_true]
  unfold Spec.readWord
  split <;> simp_all [isOption]

lemma getoptLong_flag (hc : S.takesArg c = some false) (skipped : List Word) :
    S.getoptLong ⟨skipped, c :: next, args⟩ = (.opt ⟨c, none⟩, ⟨skipped, next, args⟩) := by
  simp only [Spec.getoptLong, Spec.readShort, hc]

lemma getoptLong_attached (hc : S.takesArg c = some true) (hne : next ≠ []) (skipped : List Word) :
    S.getoptLong ⟨skipped, c :: next, args⟩ = (.opt ⟨c, some next⟩, ⟨skipped, [], args⟩) := by
  obtain ⟨d, next, rfl⟩ := List.exists_cons_of_ne_nil hne
  simp only [Spec.getoptLong, Spec.readShort, hc]

lemma getoptLong_separate (hc : S.takesArg c = some true) (skipped : List Word) :
    S.getoptLong ⟨skipped, [c], w :: args⟩ = (.opt ⟨c, some w⟩, ⟨skipped, [], args⟩) := by
  simp only [Spec.getoptLong, Spec.readShort, hc]

lemma readLong_attached {name arg : Word} {l : LongOption} (hname : '=' ∉ name)
    (hl : S.findLong name = some l) (s : Scan) :
    S.readLong (name ++ '=' :: arg) s =
      if l.takesArg then (.opt ⟨l.val, some arg⟩, s) else (.bad, s) := by
  have hall : ∀ x ∈ name, (decide (x ≠ '=')) = true := fun x hx => by
    simpa using fun h : x = '=' => hname (h ▸ hx)
  unfold Spec.readLong
  rw [List.takeWhile_append_of_pos hall, List.dropWhile_append_of_pos hall]
  simp [hl]

lemma readLong_bare {name : Word} {l : LongOption} (hname : '=' ∉ name)
    (hl : S.findLong name = some l) (s : Scan) :
    S.readLong name s =
      if l.takesArg then
        match s.args with
        | [] => (.bad, s)
        | arg :: args => (.opt ⟨l.val, some arg⟩, { s with args })
      else (.opt ⟨l.val, none⟩, s) := by
  have hall : ∀ x ∈ name, (decide (x ≠ '=')) = true := fun x hx => by
    simpa using fun h : x = '=' => hname (h ▸ hx)
  have htake : name.takeWhile (fun x => x ≠ '=') = name := List.takeWhile_eq_self_iff.mpr hall
  have hdrop : name.dropWhile (fun x => x ≠ '=') = [] := List.dropWhile_eq_nil_iff.mpr hall
  unfold Spec.readLong
  rw [htake, hdrop, hl]

/-! ### What is read is in the grammar, and the other way round -/

lemma loop_eq {t : Scan} (h : S.getoptLong s = S.getoptLong t) (fuel : ℕ) (a : α) :
    S.loop f fuel a s = S.loop f fuel a t := by
  cases fuel with
  | zero => rfl
  | succ fuel => rw [Spec.loop, Spec.loop, h]

lemma loop_opt (h : S.getoptLong s = (.opt o, s')) (fuel : ℕ) (a : α) :
    S.loop f (fuel + 1) a s = S.loop f fuel (f a o) s' := by
  rw [Spec.loop, h]

lemma loop_done (h : S.getoptLong s = (.done, s')) (fuel : ℕ) (a : α) :
    S.loop f (fuel + 1) a s = some (a, s'.skipped ++ s'.args) := by
  rw [Spec.loop, h]

lemma loop_of_reads (h : Reads S next args opts operands) : ∀ (fuel : ℕ) (a : α) (skipped),
    (⟨skipped, next, args⟩ : Scan).size < fuel →
      S.loop f fuel a ⟨skipped, next, args⟩ = some (opts.foldl f a, skipped ++ operands) := by
  -- an option costs one round of the loop, and its letters or words are not counted any more
  induction h with
  | nil =>
    intro fuel a skipped hfuel
    obtain ⟨fuel, rfl⟩ : ∃ k, fuel = k + 1 := ⟨fuel - 1, by omega⟩
    exact loop_done (getoptLong_nil skipped) fuel a
  | endOfOptions args =>
    intro fuel a skipped hfuel
    obtain ⟨fuel, rfl⟩ : ∃ k, fuel = k + 1 := ⟨fuel - 1, by omega⟩
    exact loop_done (getoptLong_end skipped args) fuel a
  | operand args hordered hw =>
    intro fuel a skipped hfuel
    obtain ⟨fuel, rfl⟩ : ∃ k, fuel = k + 1 := ⟨fuel - 1, by omega⟩
    exact loop_done (getoptLong_operand hordered hw skipped args) fuel a
  | skip hordered hw rest ih =>
    intro fuel a skipped hfuel
    rw [loop_eq (getoptLong_skip hordered hw skipped _)]
    refine (ih fuel a _ ?_).trans ?_
    · simp only [Scan.size, List.flatten_cons, List.length_append, List.length_cons] at hfuel ⊢
      omega
    · rw [List.append_assoc, List.singleton_append]
  | cluster hc rest ih =>
    intro fuel a skipped hfuel
    rw [loop_eq (getoptLong_cluster hc skipped)]
    refine ih fuel a skipped ?_
    simp only [Scan.size, List.flatten_cons, List.length_append, List.length_cons] at hfuel ⊢
    omega
  | flag hc rest ih =>
    intro fuel a skipped hfuel
    obtain ⟨fuel, rfl⟩ : ∃ k, fuel = k + 1 := ⟨fuel - 1, by omega⟩
    rw [loop_opt (getoptLong_flag hc skipped)]
    refine ih fuel _ skipped ?_
    simp only [Scan.size, List.length_cons] at hfuel ⊢
    omega
  | attached hc harg rest ih =>
    intro fuel a skipped hfuel
    obtain ⟨fuel, rfl⟩ : ∃ k, fuel = k + 1 := ⟨fuel - 1, by omega⟩
    rw [loop_opt (getoptLong_attached hc harg skipped)]
    refine ih fuel _ skipped ?_
    simp only [Scan.size, List.length_cons, List.length_nil] at hfuel ⊢
    omega
  | separate hc rest ih =>
    intro fuel a skipped hfuel
    obtain ⟨fuel, rfl⟩ : ∃ k, fuel = k + 1 := ⟨fuel - 1, by omega⟩
    rw [loop_opt (getoptLong_separate hc skipped)]
    refine ih fuel _ skipped ?_
    simp only [Scan.size, List.flatten_cons, List.length_append, List.length_cons] at hfuel ⊢
    omega
  | longFlag hne hname ho harg rest ih =>
    intro fuel a skipped hfuel
    obtain ⟨fuel, rfl⟩ : ∃ k, fuel = k + 1 := ⟨fuel - 1, by omega⟩
    rw [loop_opt ((getoptLong_long hne skipped _).trans ((readLong_bare hname ho _).trans
      (if_neg (by simp [harg]))))]
    refine ih fuel _ skipped ?_
    simp only [Scan.size, List.flatten_cons, List.length_append, List.length_cons] at hfuel ⊢
    omega
  | longAttached hname ho harg rest ih =>
    intro fuel a skipped hfuel
    obtain ⟨fuel, rfl⟩ : ∃ k, fuel = k + 1 := ⟨fuel - 1, by omega⟩
    rw [loop_opt ((getoptLong_long (by simp) skipped _).trans ((readLong_attached hname ho _).trans
      (if_pos harg)))]
    refine ih fuel _ skipped ?_
    simp only [Scan.size, List.flatten_cons, List.length_append, List.length_cons] at hfuel ⊢
    omega
  | longSeparate hne hname ho harg rest ih =>
    intro fuel a skipped hfuel
    obtain ⟨fuel, rfl⟩ : ∃ k, fuel = k + 1 := ⟨fuel - 1, by omega⟩
    rw [loop_opt ((getoptLong_long hne skipped _).trans ((readLong_bare hname ho _).trans
      (if_pos harg)))]
    refine ih fuel _ skipped ?_
    simp only [Scan.size, List.flatten_cons, List.length_append, List.length_cons] at hfuel ⊢
    omega

/-- What may follow a step also follows the words it has taken. -/
def Extends (S : Spec) (next : Word) (args : List Word) (o : Opt) (passed : List Word)
    (s' : Scan) : Prop :=
  ∀ opts operands, Reads S s'.next s'.args opts operands →
    Reads S next args (o :: opts) (passed ++ operands)

lemma extends_of_readShort (h : S.readShort c next s = (.opt o, s')) :
    s'.skipped = s.skipped ∧ Extends S (c :: next) s.args o [] s' := by
  unfold Spec.readShort at h
  split at h
  · cases h
  · rename_i hc
    cases h
    exact ⟨rfl, fun _ _ hrest => .flag hc hrest⟩
  · rename_i hc
    split at h
    · cases h
    · rename_i heq
      cases h
      rw [heq]
      exact ⟨rfl, fun _ _ hrest => .separate hc hrest⟩
    · rename_i hnil hcons
      cases h
      refine ⟨rfl, fun _ _ hrest => .attached hc ?_ hrest⟩
      rintro rfl
      rcases hargs : s.args with _ | ⟨arg, args⟩
      · exact hnil rfl hargs
      · exact hcons arg args rfl hargs

lemma extends_of_readLong {text : Word} (hne : text ≠ [])
    (h : S.readLong text ⟨skipped, [], args⟩ = (.opt o, s')) :
    s'.skipped = skipped ∧ Extends S [] (('-' :: '-' :: text) :: args) o [] s' := by
  have hname : '=' ∉ text.takeWhile fun x => x ≠ '=' := fun hmem => by
    simpa using List.mem_takeWhile_imp hmem
  have hsplit : text.takeWhile (fun x => x ≠ '=') ++ text.dropWhile (fun x => x ≠ '=') = text :=
    List.takeWhile_append_dropWhile
  rcases hl : S.findLong (text.takeWhile fun x => x ≠ '=') with _ | l
  · rw [Spec.readLong, hl] at h
    cases h
  rcases hd : text.dropWhile (fun x => x ≠ '=') with _ | ⟨d, value⟩
  · have htext : text.takeWhile (fun x => x ≠ '=') = text := by rwa [hd, List.append_nil] at hsplit
    rw [htext] at hl hname
    rw [readLong_bare hname hl] at h
    split_ifs at h with harg
    · rcases args with _ | ⟨arg, args⟩
      · cases h
      · cases h
        exact ⟨rfl, fun _ _ hrest => .longSeparate hne hname hl harg hrest⟩
    · cases h
      exact ⟨rfl, fun _ _ hrest => .longFlag hne hname hl (by simpa using harg) hrest⟩
  · obtain rfl : d = '=' := by
      have hhead := List.head?_dropWhile_not (fun x => decide (x ≠ '=')) text
      rw [hd] at hhead
      simpa using hhead
    rw [hd] at hsplit
    generalize text.takeWhile (fun x => x ≠ '=') = name at hsplit hl hname
    subst hsplit
    rw [readLong_attached hname hl] at h
    split_ifs at h with harg
    · cases h
      exact ⟨rfl, fun _ _ hrest => .longAttached hname hl harg hrest⟩
    · cases h

lemma exists_of_isOption (h : isOption w = true) : ∃ c text, w = '-' :: c :: text := by
  unfold isOption at h
  split at h
  · exact ⟨_, _, rfl⟩
  · cases h

lemma extends_of_opt (h : S.getoptLong ⟨skipped, next, args⟩ = (.opt o, s')) :
    ∃ passed, s'.skipped = skipped ++ passed ∧ Extends S next args o passed s' := by
  rcases next with _ | ⟨c, next⟩
  · -- operands are passed over one by one
    induction args generalizing skipped with
    | nil =>
      rw [getoptLong_nil] at h
      cases h
    | cons w args ih =>
      rcases hw : isOption w with _ | _
      · rcases hordered : S.ordered with _ | _
        · rw [getoptLong_skip hordered hw] at h
          obtain ⟨passed, hskipped, hext⟩ := ih h
          refine ⟨w :: passed, by simpa using hskipped, fun opts operands hrest => ?_⟩
          exact .skip hordered hw (hext opts operands hrest)
        · rw [getoptLong_operand hordered hw] at h
          cases h
      · obtain ⟨c, text, rfl⟩ := exists_of_isOption hw
        by_cases hc : c = '-'
        · subst hc
          rcases text with _ | ⟨d, text⟩
          · rw [getoptLong_end] at h
            cases h
          · rw [getoptLong_long (by simp)] at h
            obtain ⟨hskipped, hext⟩ := extends_of_readLong (by simp) h
            exact ⟨[], by simpa using hskipped, hext⟩
        · rw [getoptLong_cluster hc] at h
          obtain ⟨hskipped, hext⟩ := extends_of_readShort h
          exact ⟨[], by simpa using hskipped, fun _ _ hrest => .cluster hc (hext _ _ hrest)⟩
  · obtain ⟨hskipped, hext⟩ := extends_of_readShort h
    exact ⟨[], by simpa using hskipped, hext⟩

lemma readShort_ne_done : (S.readShort c next s).1 ≠ .done := by
  unfold Spec.readShort
  split
  · exact nofun
  · exact nofun
  · split <;> exact nofun

lemma readLong_ne_done {text : Word} : (S.readLong text s).1 ≠ .done := by
  unfold Spec.readLong
  split
  · exact nofun
  · split
    · split_ifs <;> exact nofun
    · split_ifs
      · split <;> exact nofun
      · exact nofun

lemma reads_of_done (h : S.getoptLong ⟨skipped, next, args⟩ = (.done, s')) :
    ∃ operands, Reads S next args [] operands ∧ s'.skipped ++ s'.args = skipped ++ operands := by
  rcases next with _ | ⟨c, next⟩
  · induction args generalizing skipped with
    | nil =>
      rw [getoptLong_nil] at h
      cases h
      exact ⟨[], .nil, rfl⟩
    | cons w args ih =>
      rcases hw : isOption w with _ | _
      · rcases hordered : S.ordered with _ | _
        · rw [getoptLong_skip hordered hw] at h
          obtain ⟨operands, hreads, heq⟩ := ih h
          exact ⟨w :: operands, .skip hordered hw hreads, by simpa using heq⟩
        · rw [getoptLong_operand hordered hw] at h
          cases h
          exact ⟨w :: args, .operand args hordered hw, rfl⟩
      · obtain ⟨c, text, rfl⟩ := exists_of_isOption hw
        by_cases hc : c = '-'
        · subst hc
          rcases text with _ | ⟨d, text⟩
          · rw [getoptLong_end] at h
            cases h
            exact ⟨args, .endOfOptions args, rfl⟩
          · rw [getoptLong_long (by simp)] at h
            exact absurd (congrArg Prod.fst h) readLong_ne_done
        · rw [getoptLong_cluster hc] at h
          exact absurd (congrArg Prod.fst h) readShort_ne_done
  · exact absurd (congrArg Prod.fst h) readShort_ne_done

lemma reads_of_loop {b : α} : ∀ (fuel : ℕ) (a : α) (s : Scan),
    S.loop f fuel a s = some (b, operands) →
      ∃ opts rest, Reads S s.next s.args opts rest ∧ opts.foldl f a = b ∧
        operands = s.skipped ++ rest := by
  intro fuel
  induction fuel with
  | zero => exact fun a s h => nomatch h
  | succ fuel ih =>
    intro a s h
    rw [Spec.loop] at h
    split at h
    · rename_i o s' hstep
      obtain ⟨passed, hskipped, hext⟩ := extends_of_opt hstep
      obtain ⟨opts, rest, hreads, hfold, heq⟩ := ih _ _ h
      exact ⟨o :: opts, passed ++ rest, hext opts rest hreads, hfold,
        by rw [heq, hskipped, List.append_assoc]⟩
    · cases h
    · rename_i s' hstep
      obtain ⟨rest, hreads, heq⟩ := reads_of_done hstep
      cases h
      exact ⟨[], rest, hreads, rfl, heq⟩

/-- **The command lines that are read** are those of the grammar. -/
theorem read_eq_some_iff {a b : α} :
    S.read f a args = some (b, operands) ↔
      ∃ opts, Reads S [] args opts operands ∧ opts.foldl f a = b := by
  constructor
  · intro h
    obtain ⟨opts, rest, hreads, hfold, rfl⟩ := reads_of_loop _ _ _ h
    exact ⟨opts, hreads, hfold⟩
  · rintro ⟨opts, hreads, rfl⟩
    exact loop_of_reads hreads _ a [] (Nat.lt_succ_self _)

lemma read_of_reads (h : Reads S [] args opts operands) (f : α → Opt → α) (a : α) :
    S.read f a args = some (opts.foldl f a, operands) :=
  read_eq_some_iff.mpr ⟨opts, h, rfl⟩

/-- The grammar is not ambiguous. -/
theorem reads_unique {opts' : List Opt} {operands' : List Word}
    (h : Reads S [] args opts operands) (h' : Reads S [] args opts' operands') :
    opts = opts' ∧ operands = operands' := by
  have hsnoc : ∀ (l m : List Opt), l.foldl (fun acc o => acc ++ [o]) m = m ++ l := by
    intro l
    induction l with
    | nil => simp
    | cons o l ih => intro m; simp [ih]
  have hread := (read_eq_some_iff (f := fun acc o => acc ++ [o])).mpr ⟨opts, h, hsnoc opts []⟩
  have hread' := (read_eq_some_iff (f := fun acc o => acc ++ [o])).mpr ⟨opts', h', hsnoc opts' []⟩
  simpa using hread.symm.trans hread'

end Hoststack.Getopt
