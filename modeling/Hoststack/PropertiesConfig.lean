import Hoststack.Lib.InsertNew
import Hoststack.Trim

/-!
The properties file: lines of a key and a value with an equals sign between them.

The constructor trims a line in place and takes the key and the value off it with two calls of
`strtok`, which passes over equals signs in front of a token. A string made from a null pointer
ends the constructor.
-/

namespace Hoststack.PropertiesConfig

open UsgCommon Trim

abbrev PropertiesMap := List (Str × Str)

/-- `getline` into a buffer of `n` bytes: the line and the text behind it. It fails at the end of
the text, and on a line for which there is no room. -/
def getline (n : ℕ) (text : Str) : Option (Str × Str) :=
  let line := text.takeWhile (· ≠ '\n')
  if text = [] ∨ line.length ≥ n then none
  else some (line, (text.dropWhile (· ≠ '\n')).tail)

/-- What `trim` makes of a buffer with a string in it. -/
def trimBuf (buf : Str) : Str := cstr (trim none (start buf [])).bytes

def delim : Str := ['=']

/-- One turn of the loop; `none` is a string made from a null pointer. -/
def turn (line : Str) (map : PropertiesMap) : Option PropertiesMap :=
  let line := trimBuf line
  if line.length = 0 then some map
  else if line.head? = some '#' then some map
  else
    let first := strtok delim line
    let key := first.map fun t => trimBuf t.1
    let second := first.bind fun t => strtok delim t.2
    let value := second.map fun t => trimBuf t.1
    match key, value with
    | some key, some value => some (insertNew map key value)
    | _, _ => none

lemma length_getline {n : ℕ} {text line rest : Str} (h : getline n text = some (line, rest)) :
    rest.length < text.length := by
  unfold getline at h
  dsimp only at h
  split_ifs at h with hstop
  rw [not_or] at hstop
  obtain ⟨-, hrest⟩ := Prod.mk.inj (Option.some.inj h)
  have hpos : 0 < text.length := List.length_pos_of_ne_nil hstop.1
  have hle := (List.dropWhile_sublist (fun c => decide (c ≠ '\n')) (l := text)).length_le
  rw [← hrest, List.length_tail]
  omega

/-- The loop of the constructor. -/
def load (text : Str) (map : PropertiesMap) : Option PropertiesMap :=
  match _h : getline 1024 text with
  | none => some map
  | some (line, rest) => (turn line map).bind (load rest)
termination_by text.length
decreasing_by exact length_getline _h

def propertiesConfig (text : Str) : Option PropertiesMap := load text []

/-! ### Trimmed strings -/

/-- A string without the blanks around it. -/
def trimmed (s : Str) : Str := (s.dropWhile (isDelim blank)).rdropWhile (isDelim blank)

lemma exists_cstr_append (buf : Str) : ∃ r, buf ++ ['\x00'] = cstr buf ++ '\x00' :: r := by
  induction buf with
  | nil => exact ⟨[], rfl⟩
  | cons c buf ih =>
    unfold cstr at ih ⊢
    by_cases hc : c = '\x00'
    · rw [List.takeWhile_cons_of_neg (by simpa using hc), hc]
      exact ⟨buf ++ ['\x00'], rfl⟩
    · obtain ⟨r, hr⟩ := ih
      rw [List.takeWhile_cons_of_pos (by simpa using hc), List.cons_append, hr]
      exact ⟨r, rfl⟩

lemma not_mem_cstr (buf : Str) : '\x00' ∉ cstr buf := fun hmem => by
  have hne := List.mem_takeWhile_imp hmem
  simp at hne

lemma cstr_of_not_mem {s : Str} (h : '\x00' ∉ s) : cstr s = s :=
  List.takeWhile_eq_self_iff.mpr fun _ hc => decide_eq_true fun heq => h (heq ▸ hc)

lemma trimBuf_eq {buf : Str} (h : buf.length ≤ 2 ^ 31) : trimBuf buf = trimmed (cstr buf) := by
  obtain ⟨r, hr⟩ := exists_cstr_append buf
  have hle : (cstr buf).length ≤ buf.length := (List.takeWhile_sublist _).length_le
  have hholds : Holds (cstr buf).length (start buf []) (cstr buf) :=
    ⟨not_mem_cstr buf, ⟨r, hr⟩, Nat.le_refl _, fun i hi => by cases hi⟩
  have hsuits : Suits (isDelim blank) (cstr buf) := suits_of_length_le _ (hle.trans h)
  unfold trimBuf
  rw [(trim_holds none hholds).cstr_eq]
  exact (dropWhile_cutEnd_iff _ _).mpr hsuits

lemma isInfix_trimmed (s : Str) : trimmed s <:+: s :=
  (List.rdropWhile_prefix _ _).isInfix.trans (List.dropWhile_suffix _).isInfix

lemma mem_trimmed_iff {c : Char} (hc : isDelim blank c = false) (s : Str) :
    c ∈ trimmed s ↔ c ∈ s := by
  obtain ⟨a, b, hs, hblank⟩ := exists_append_trimmed (isDelim blank) s
  constructor
  · exact fun h => (isInfix_trimmed s).subset h
  · intro h
    rw [hs, List.mem_append, List.mem_append] at h
    rcases h with (h | h) | h
    · exact absurd (hblank c (List.mem_append_left _ h)) (by simp [hc])
    · exact h
    · exact absurd (hblank c (List.mem_append_right _ h)) (by simp [hc])

/-! ### One line -/

/-- The line adds nothing: it is blank or starts with a number sign, blanks aside. -/
def skipped (line : Str) : Bool := trimmed line = [] || (trimmed line).head? = some '#'

/-- The tokens that `strtok` finds in a line, trimmed. -/
def fields (line : Str) : List Str := (tokens (isDelim delim) (trimmed line)).map trimmed

/-- The map after a line. -/
def put (map : PropertiesMap) (line : Str) : Option PropertiesMap :=
  if skipped line then some map
  else match fields line with
    | key :: value :: _ => some (insertNew map key value)
    | _ => none

lemma strtok_sublist {text token rest : Str} (h : strtok delim text = some (token, rest)) :
    token.Sublist text ∧ rest.Sublist text := by
  unfold strtok at h
  have hsub := List.dropWhile_sublist (isDelim delim) (l := text)
  rcases hd : text.dropWhile (isDelim delim) with _ | ⟨c, cs⟩
  · rw [hd] at h
    cases h
  · rw [hd] at h hsub
    cases h
    constructor
    · exact ((List.takeWhile_sublist _).cons_cons c).trans hsub
    · have htail := (List.tail_sublist (cs.dropWhile (!isDelim delim ·))).trans
        (List.dropWhile_sublist _)
      exact (htail.trans (List.sublist_cons_self c cs)).trans hsub

lemma trimBuf_sublist {s t : Str} (hnul : '\x00' ∉ s) (hlen : s.length ≤ 2 ^ 31)
    (ht : t.Sublist s) : trimBuf t = trimmed t := by
  rw [trimBuf_eq (ht.length_le.trans hlen), cstr_of_not_mem fun hmem => hnul (ht.subset hmem)]

lemma turn_eq {buf : Str} (h : buf.length ≤ 2 ^ 31) (map : PropertiesMap) :
    turn buf map = put map (cstr buf) := by
  unfold turn put skipped fields
  dsimp only
  rw [trimBuf_eq h]
  have hnul : '\x00' ∉ trimmed (cstr buf) := fun hmem =>
    not_mem_cstr buf ((isInfix_trimmed _).subset hmem)
  have hlen : (trimmed (cstr buf)).length ≤ 2 ^ 31 :=
    ((isInfix_trimmed _).length_le.trans (List.takeWhile_sublist _).length_le).trans h
  generalize trimmed (cstr buf) = s at hnul hlen ⊢
  by_cases hnil : s = []
  · rw [hnil]
    rfl
  rw [if_neg fun hzero => hnil (List.eq_nil_of_length_eq_zero hzero)]
  by_cases hhead : s.head? = some '#'
  · have hskip : (decide (s = []) || decide (s.head? = some '#')) = true := by simp [hhead]
    rw [if_pos hhead, if_pos hskip]
  have hskip : ¬ (decide (s = []) || decide (s.head? = some '#')) = true := by
    simp [hnil, hhead]
  rw [if_neg hhead, if_neg hskip]
  -- the first token, and the second behind it
  rcases strtok_spec delim s with ⟨hs, htokens⟩ | ⟨token, rest, hs, htokens, -⟩
  · rw [hs, htokens]
    rfl
  · obtain ⟨htoken, hrest⟩ := strtok_sublist hs
    rw [hs, htokens, Option.map_some, Option.bind_some, trimBuf_sublist hnul hlen htoken]
    dsimp only
    rcases strtok_spec delim rest with ⟨hr, htokens'⟩ | ⟨token', rest', hr, htokens', -⟩
    · rw [hr, htokens']
      rfl
    · have htoken' := (strtok_sublist hr).1.trans hrest
      rw [hr, htokens', Option.map_some, trimBuf_sublist hnul hlen htoken']
      rfl

/-! ### All lines -/

/-- The text has no line for which there is no room. -/
def Short (text : Str) : Prop := ∀ line ∈ text.splitOn '\n', line.length < 1024

/-- The lines as strings, which end at a null. -/
def lines (text : Str) : List Str := (text.splitOn '\n').map cstr

lemma load_none {text : Str} (h : getline 1024 text = none) (map : PropertiesMap) :
    load text map = some map := by
  rw [load]
  split
  · rfl
  · rename_i hsome
    rw [h] at hsome
    cases hsome

lemma load_some {text line rest : Str} (h : getline 1024 text = some (line, rest))
    (map : PropertiesMap) : load text map = (turn line map).bind (load rest) := by
  rw [load]
  split
  · rename_i hnone
    rw [h] at hnone
    cases hnone
  · rename_i hsome
    rw [h] at hsome
    cases hsome
    rfl

lemma getline_cases {text : Str} (h : Short text) (hne : text ≠ []) :
    (getline 1024 text = some (text, []) ∧ text.splitOn '\n' = [text]) ∨
      ∃ line rest, getline 1024 text = some (line, rest) ∧
        text.splitOn '\n' = line :: rest.splitOn '\n' := by
  unfold getline
  dsimp only
  by_cases hmem : '\n' ∈ text
  · right
    obtain ⟨line, rest, rfl, hline⟩ := List.eq_append_cons_of_mem hmem
    have hsplit := List.splitOn_append_cons_self_of_not_mem hline rest
    have hlen : line.length < 1024 := h line (by simp [hsplit])
    obtain ⟨htake, hdrop⟩ := cut_append hline rest
    refine ⟨line, rest, ?_, hsplit⟩
    rw [htake, hdrop, if_neg (not_or.mpr ⟨hne, by omega⟩)]
    rfl
  · left
    have hsplit : text.splitOn '\n' = [text] := List.splitOn_eq_singleton hmem
    have hlen : text.length < 1024 := h text (by simp [hsplit])
    have hall : ∀ x ∈ text, decide (x ≠ '\n') = true := fun x hx =>
      decide_eq_true fun heq => hmem (heq ▸ hx)
    refine ⟨?_, hsplit⟩
    rw [List.takeWhile_eq_self_iff.mpr hall, List.dropWhile_eq_nil_iff.mpr hall,
      if_neg (not_or.mpr ⟨hne, by omega⟩)]
    rfl

lemma load_eq {text : Str} (h : Short text) (map : PropertiesMap) :
    load text map = (text.splitOn '\n').foldlM (fun map line => turn line map) map := by
  obtain ⟨n, hn⟩ : ∃ n, text.length = n := ⟨_, rfl⟩
  induction n using Nat.strong_induction_on generalizing text map with
  | _ n ih =>
    by_cases hnil : text = []
    · rw [hnil]
      have hskip : turn [] map = some map := rfl
      rw [load_none rfl, List.splitOn_nil, List.foldlM_cons, hskip]
      rfl
    · rcases getline_cases h hnil with ⟨hline, hsplit⟩ | ⟨line, rest, hline, hsplit⟩
      · -- the last line, without a newline
        rw [load_some hline, hsplit, List.foldlM_cons]
        rcases turn text map with _ | map'
        · rfl
        · exact load_none rfl map'
      · have hrest : Short rest := fun l hl => h l (by rw [hsplit]; exact List.mem_cons_of_mem _ hl)
        have hlt : rest.length < n := by
          rw [← hn]
          exact length_getline hline
        rw [load_some hline, hsplit, List.foldlM_cons]
        rcases turn line map with _ | map'
        · rfl
        · exact ih _ hlt hrest map' rfl

/-- The entries that the loop puts into the map, in order. -/
def puts (ls : List Str) : List (Str × Str) :=
  ls.filterMap fun line => if skipped line then none
    else match fields line with
      | key :: value :: _ => some (key, value)
      | _ => none

/-- Every line that is not passed over has two tokens. -/
def TwoFields (ls : List Str) : Prop := ∀ line ∈ ls, skipped line = false → 2 ≤ (fields line).length

lemma TwoFields.cons {line : Str} {ls : List Str} (h : TwoFields (line :: ls))
    (hs : skipped line = false) : ∃ key value more, fields line = key :: value :: more := by
  have hlen := h line List.mem_cons_self hs
  rcases hf : fields line with _ | ⟨key, _ | ⟨value, more⟩⟩
  · rw [hf] at hlen
    simp at hlen
  · rw [hf] at hlen
    simp at hlen
  · exact ⟨key, value, more, rfl⟩

lemma TwoFields.tail {line : Str} {ls : List Str} (h : TwoFields (line :: ls)) : TwoFields ls :=
  (List.forall_mem_cons.mp h).2

lemma foldlM_put {ls : List Str} (h : TwoFields ls) (map : PropertiesMap) :
    ls.foldlM put map = some ((puts ls).foldl (fun m e => insertNew m e.1 e.2) map) := by
  induction ls generalizing map with
  | nil => rfl
  | cons line ls ih =>
    rw [List.foldlM_cons]
    unfold puts
    rcases hs : skipped line with _ | _
    · obtain ⟨key, value, more, hfields⟩ := h.cons hs
      have hput : put map line = some (insertNew map key value) := by
        unfold put
        rw [hs, hfields]
        rfl
      rw [hput, List.filterMap_cons, hs, hfields]
      exact ih h.tail (insertNew map key value)
    · have hput : put map line = some map := by
        unfold put
        rw [hs]
        rfl
      rw [hput, List.filterMap_cons, hs]
      exact ih h.tail map

lemma twoFields_of_foldlM {ls : List Str} {map map' : PropertiesMap}
    (h : ls.foldlM put map = some map') : TwoFields ls := by
  induction ls generalizing map with
  | nil => exact fun line hline => by cases hline
  | cons line ls ih =>
    rw [List.foldlM_cons] at h
    rcases hput : put map line with _ | map''
    · rw [hput] at h
      cases h
    · rw [hput] at h
      refine List.forall_mem_cons.mpr ⟨fun hs => ?_, ih h⟩
      unfold put at hput
      rw [hs] at hput
      rcases hf : fields line with _ | ⟨key, _ | ⟨value, more⟩⟩
      · rw [hf] at hput
        cases hput
      · rw [hf] at hput
        cases hput
      · simp

/-! ### Entries -/

def keyPart (line : Str) : Str := line.takeWhile (· ≠ '=')

def valuePart (line : Str) : Str := (line.dropWhile (· ≠ '=')).tail

/-- The line is a key that is not blank, an equals sign and a value. -/
def isEntry (line : Str) : Bool :=
  !skipped line && decide ('=' ∈ line) && decide (trimmed (keyPart line) ≠ [])

/-- The keys and values of the lines that are entries, in order. -/
def entries (ls : List Str) : List (Str × Str) :=
  (ls.filter isEntry).map fun line => (trimmed (keyPart line), trimmed (valuePart line))

/-- The first token of the line is the key. -/
def yields (key : Str) (line : Str) : Bool :=
  !skipped line && decide ((fields line).head? = some key)

lemma fields_entry {line : Str} (h : isEntry line) :
    fields line = trimmed (keyPart line) ::
      (tokens (isDelim delim) ((valuePart line).rdropWhile (isDelim blank))).map trimmed := by
  unfold isEntry at h
  rw [Bool.and_eq_true, Bool.and_eq_true, decide_eq_true_iff, decide_eq_true_iff] at h
  obtain ⟨⟨-, hmem⟩, hkey⟩ := h
  obtain ⟨a, r, hcut, ha⟩ := List.eq_append_cons_of_mem hmem
  obtain ⟨htake, hdrop⟩ := cut_append ha r
  rw [← hcut] at htake hdrop
  have hkeyPart : keyPart line = a := htake
  have hvaluePart : valuePart line = r := congrArg List.tail hdrop
  rw [hkeyPart] at hkey ⊢
  rw [hvaluePart]
  have hfront : a.dropWhile (isDelim blank) ≠ [] := fun hnil => hkey <| by
    unfold trimmed
    rw [hnil]
    rfl
  have htrimmed : trimmed line =
      a.dropWhile (isDelim blank) ++ '=' :: r.rdropWhile (isDelim blank) := by
    have hdropped : line.dropWhile (isDelim blank) = a.dropWhile (isDelim blank) ++ '=' :: r := by
      rw [hcut, List.dropWhile_append, if_neg (by simpa using hfront)]
    unfold trimmed
    rw [hdropped, rdropWhile_append_cons (by decide)]
  have hclean : ∀ c ∈ a.dropWhile (isDelim blank), isDelim delim c = false := by
    intro c hc
    have hne : c ≠ '=' := fun heq => ha (heq ▸ (List.dropWhile_sublist _).subset hc)
    simpa [isDelim, delim] using hne
  have hsame : trimmed (a.dropWhile (isDelim blank)) = trimmed a := by
    unfold trimmed
    rw [List.dropWhile_idempotent]
  calc fields line
      = (tokens (isDelim delim) (a.dropWhile (isDelim blank) ++
          '=' :: r.rdropWhile (isDelim blank))).map trimmed := by rw [fields, htrimmed]
    _ = trimmed (a.dropWhile (isDelim blank)) ::
          (tokens (isDelim delim) (r.rdropWhile (isDelim blank))).map trimmed := by
        rw [tokens_run_sep hclean hfront _ (by decide), List.map_cons]
    _ = _ := by rw [hsame]

lemma fields_second_iff {line : Str} (h : isEntry line) (htwo : 2 ≤ (fields line).length) :
    (fields line)[1]? = some (trimmed (valuePart line)) ↔ '=' ∉ valuePart line := by
  have hblank : isDelim blank '=' = false := by decide
  rw [fields_entry h] at htwo ⊢
  have hsame : trimmed ((valuePart line).rdropWhile (isDelim blank)) =
      trimmed (valuePart line) := by
    unfold trimmed
    rw [rdropWhile_dropWhile, List.rdropWhile_idempotent, rdropWhile_dropWhile]
  generalize valuePart line = r at hsame htwo ⊢
  generalize hb : r.rdropWhile (isDelim blank) = b at hsame htwo ⊢
  have hmem : '=' ∈ b ↔ '=' ∈ r := by
    rw [← mem_trimmed_iff hblank b, hsame, mem_trimmed_iff hblank r]
  rw [← hmem, ← hsame]
  rcases ht : tokens (isDelim delim) b with _ | ⟨token, more⟩
  · rw [ht] at htwo
    simp at htwo
  · have htoken : token ∈ tokens (isDelim delim) b := by simp [ht]
    obtain ⟨-, hclean⟩ := of_mem_tokens htoken
    change some (trimmed token) = some (trimmed b) ↔ '=' ∉ b
    constructor
    · -- the token has none, so the value has none
      intro heq hin
      have hin' : '=' ∈ token := by
        rw [← mem_trimmed_iff hblank token, Option.some.inj heq]
        exact (mem_trimmed_iff hblank b).mpr hin
      exact absurd (hclean '=' hin') (by decide)
    · intro hout
      have hrun : ∀ c ∈ b, isDelim delim c = false := by
        intro c hc
        have hne : c ≠ '=' := fun heq => hout (heq ▸ hc)
        simpa [isDelim, delim] using hne
      have hne : b ≠ [] := fun hnil => by
        rw [hnil, tokens_nil] at ht
        cases ht
      rw [tokens_run hrun hne] at ht
      cases ht
      rfl

lemma two_of_find? {ls : List Str} {key line : Str} (h : TwoFields ls)
    (hline : ls.find? (yields key) = some line) : 2 ≤ (fields line).length := by
  have hyields : yields key line := List.find?_some hline
  unfold yields at hyields
  rw [Bool.and_eq_true, Bool.not_eq_true'] at hyields
  exact h line (List.mem_of_find?_eq_some hline) hyields.1

lemma yields_entry {line : Str} (h : isEntry line) (key : Str) :
    yields key line = decide (trimmed (keyPart line) = key) := by
  have hskip : skipped line = false := by
    unfold isEntry at h
    simp only [Bool.and_eq_true, Bool.not_eq_true'] at h
    exact h.1.1
  unfold yields
  rw [hskip, fields_entry h]
  simp

lemma lookup_puts {ls : List Str} (h : TwoFields ls) (key : Str) :
    (puts ls).lookup key = (ls.find? (yields key)).bind fun line => (fields line)[1]? := by
  induction ls with
  | nil => rfl
  | cons line ls ih =>
    have hrest := ih h.tail
    unfold puts at hrest ⊢
    rcases hs : skipped line with _ | _
    · obtain ⟨first, second, more, hf⟩ := h.cons hs
      have hyields : yields key line = decide (first = key) := by
        unfold yields
        rw [hs, hf]
        simp
      rw [List.filterMap_cons, hs, hf]
      by_cases hkey : first = key
      · have hpos : yields key line = true := hyields.trans (decide_eq_true hkey)
        rw [List.find?_cons_of_pos hpos, Option.bind_some, hf, hkey]
        exact List.lookup_cons_self
      · have hneg : ¬ yields key line = true := by
          rw [hyields]
          simpa using hkey
        have hne : (key == first) = false := beq_eq_false_iff_ne.mpr (Ne.symm hkey)
        rw [List.find?_cons_of_neg hneg, ← hrest]
        change ((first, second) :: _).lookup key = _
        rw [List.lookup_cons, hne]
    · have hnot : ¬ yields key line = true := by
        unfold yields
        rw [hs]
        exact Bool.false_ne_true
      rw [List.filterMap_cons, hs, List.find?_cons_of_neg hnot]
      exact hrest

lemma lookup_entries {ls : List Str} {key line : Str} (h : ls.find? (yields key) = some line)
    (hentry : isEntry line) : (entries ls).lookup key = some (trimmed (valuePart line)) := by
  induction ls with
  | nil => cases h
  | cons l ls ih =>
    unfold entries at ih ⊢
    by_cases hy : yields key l
    · rw [List.find?_cons_of_pos hy] at h
      cases h
      rw [yields_entry hentry, decide_eq_true_iff] at hy
      rw [List.filter_cons_of_pos hentry, List.map_cons, hy]
      exact List.lookup_cons_self
    · rw [List.find?_cons_of_neg hy] at h
      have hrest := ih h
      by_cases hl : isEntry l
      · rw [yields_entry hl, decide_eq_true_iff] at hy
        have hne : (key == trimmed (keyPart l)) = false := beq_eq_false_iff_ne.mpr (Ne.symm hy)
        rw [List.filter_cons_of_pos hl, List.map_cons, List.lookup_cons, hne]
        exact hrest
      · rw [List.filter_cons_of_neg hl]
        exact hrest

lemma exists_find?_yields {ls : List Str} {key value : Str}
    (h : (entries ls).lookup key = some value) : ∃ line, ls.find? (yields key) = some line := by
  rw [← Option.isSome_iff_exists, List.find?_isSome]
  obtain ⟨a, b, hcut, -⟩ := List.lookup_eq_some_iff.mp h
  have hmem : (key, value) ∈ entries ls := by simp [hcut]
  obtain ⟨line, hline, heq⟩ := List.mem_map.mp hmem
  obtain ⟨hin, hentry⟩ := List.mem_filter.mp hline
  refine ⟨line, hin, ?_⟩
  rw [yields_entry hentry]
  exact decide_eq_true (congrArg Prod.fst heq)

/-! ### The file -/

/-- What the constructor is for: it takes all lines, to the end; blank lines and comments add
nothing; the first entry of each key is in the map. -/
structure Parses (text : Str) : Prop where
  all : propertiesConfig text = (text.splitOn '\n').foldlM (fun map line => turn line map) []
  skips : ∀ line ∈ text.splitOn '\n', skipped (cstr line) → ∀ map, turn line map = some map
  map : ∃ map, propertiesConfig text = some map ∧
    ∀ key value, (entries (lines text)).lookup key = some value → map.lookup key = some value

/-- Every line that is not passed over has two tokens, and where a key has an entry, the first
line that yields it is one with a single equals sign, or its second token is the value of the
first entry. -/
structure Plain (ls : List Str) : Prop where
  two : TwoFields ls
  first : ∀ key value line, (entries ls).lookup key = some value →
    ls.find? (yields key) = some line →
      if isEntry line then '=' ∉ valuePart line else (fields line)[1]? = some value

lemma foldlM_turn {buffers : List Str} (h : ∀ line ∈ buffers, line.length < 1024)
    (map : PropertiesMap) :
    buffers.foldlM (fun map line => turn line map) map = (buffers.map cstr).foldlM put map := by
  induction buffers generalizing map with
  | nil => rw [List.map_nil, List.foldlM_nil, List.foldlM_nil]
  | cons line buffers ih =>
    obtain ⟨hline, hrest⟩ := List.forall_mem_cons.mp h
    rw [List.foldlM_cons, List.map_cons, List.foldlM_cons, turn_eq (by omega)]
    exact congrArg (put map (cstr line) >>= ·) (funext fun map' => ih hrest map')

/-- **The constructor** reads a text of short lines if and only if the lines are plain. -/
theorem parses_iff (text : Str) (hshort : Short text) : Parses text ↔ Plain (lines text) := by
  have hall : propertiesConfig text = (lines text).foldlM put [] :=
    (load_eq hshort []).trans (foldlM_turn hshort [])
  constructor
  · intro h
    obtain ⟨map, hmap, hfirst⟩ := h.map
    rw [hall] at hmap
    have htwo : TwoFields (lines text) := twoFields_of_foldlM hmap
    rw [foldlM_put htwo] at hmap
    refine ⟨htwo, fun key value line hentries hline => ?_⟩
    have hlookup := hfirst key value hentries
    rw [← Option.some.inj hmap, lookup_foldl_insertNew, lookup_puts htwo, hline] at hlookup
    change (fields line)[1]? = some value at hlookup
    split_ifs with hentry
    · rw [lookup_entries hline hentry] at hentries
      rw [← hentries] at hlookup
      exact (fields_second_iff hentry (two_of_find? htwo hline)).mp hlookup
    · exact hlookup
  · intro h
    refine ⟨load_eq hshort [], fun line hline hskip map => ?_, _, hall.trans (foldlM_put h.two []),
      fun key value hentries => ?_⟩
    · have hlen : line.length < 1024 := hshort line hline
      rw [turn_eq (by omega)]
      unfold put
      rw [hskip]
      rfl
    · obtain ⟨line, hline⟩ := exists_find?_yields hentries
      have hfirst := h.first key value line hentries hline
      rw [lookup_foldl_insertNew, lookup_puts h.two, hline]
      change (fields line)[1]? = some value
      split_ifs at hfirst with hentry
      · rw [lookup_entries hline hentry] at hentries
        rw [← hentries]
        exact (fields_second_iff hentry (two_of_find? h.two hline)).mpr hfirst
      · exact hfirst

instance (text : Str) : Decidable (Short text) :=
  inferInstanceAs (Decidable (∀ line ∈ text.splitOn '\n', line.length < 1024))

theorem parses_iff_two_keys :
    Parses "# ports\n a = 1 \n\nb=2\na=3\n".toList ↔
      Plain (lines "# ports\n a = 1 \n\nb=2\na=3\n".toList) :=
  parses_iff "# ports\n a = 1 \n\nb=2\na=3\n".toList (by decide)

/-- A key without a value ends the constructor. -/
theorem empty_value : ¬ Parses "k=".toList := by
  intro h
  obtain ⟨map, hmap, -⟩ := h.map
  have hline : getline 1024 "k=".toList = some ("k=".toList, []) := by decide
  have hturn : turn "k=".toList [] = none := by decide
  unfold propertiesConfig at hmap
  rw [load_some hline, hturn] at hmap
  cases hmap

end Hoststack.PropertiesConfig
