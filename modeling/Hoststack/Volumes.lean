import Hoststack.ContainerFs
import Hoststack.Lib.Shell

/-!
Volume strings: which of them are mounted, and where.

A string whose source or destination is not absolute is reported, and the copy of it that is
taken apart is freed; but nothing leaves the function there, so the copy is used further. The
destination is joined to the directory of the container as it is, double dots included, and both
paths are handed to the shell as they are.
-/

namespace Hoststack.Volumes

open Hoststack.Path UsgCommon PathAssembler ContainerFs

/-! ### The control flow -/

/-- What `mount_volume` does with its copy of the string. -/
inductive VolumeOp where
  | strtok
  | free
  | error (format : Str) (arg : Option Str)
  | bindMount (src dest : Str)

def mustBeAbsolute : Str := "invalid mount path: '%s' mount path must be absolute.".toList

def formatErr : Str := "param volume format err.".toList

/-- The branch of a field that is not absolute. -/
def rejected (field : Str) : List VolumeOp :=
  if field.head? ≠ some '/' then [.free, .error mustBeAbsolute (some field)] else []

/-- The operations in order, as they come when the copy keeps its content. -/
def mountVolumeOps (volume : Str) : List VolumeOp :=
  .strtok ::
    match strtok ":".toList volume with
    | none => [.free, .error formatErr none]
    | some (src, rest) =>
      rejected src ++ .strtok ::
        match strtok ":".toList rest with
        | none => [.free, .error formatErr none]
        | some (dest, _) => rejected dest ++ [.bindMount src dest]

/-- The operation reads or frees the copy. -/
def VolumeOp.uses : VolumeOp → Bool
  | .error _ none => false
  | _ => true

/-- Do the operations, the copy having been freed or not. A use of freed memory leaves the result
undefined. -/
def perform (env : Env) (containerId : Str) (freed : Bool) :
    List VolumeOp → FsState → Option (FsState × Bool)
  | [], s => some (s, true)
  | op :: ops, s =>
    if freed && op.uses then none
    else
      match op with
      | .strtok | .error .. => perform env containerId freed ops s
      | .free => perform env containerId true ops s
      | .bindMount src dest =>
        match bindMount env containerId src dest s with
        | none => none
        | some (s, false) => some (s, false)
        | some (s, true) => perform env containerId freed ops s

/-- The fields of a volume string; those that are empty are skipped. -/
def fields (volume : Str) : List Str := tokens (isDelim ":".toList) volume

/-- The first two fields are absolute. -/
def Accepts (volume src dest : Str) : Prop :=
  ∃ more, fields volume = src :: dest :: more ∧ src.head? = some '/' ∧ dest.head? = some '/'

/-- The string is checked before it is used: only absolute fields get to `bind_mount`, and
without them nothing happens to the file system. -/
structure Validated (volume : Str) : Prop where
  reached : ∀ src dest, .bindMount src dest ∈ mountVolumeOps volume → Accepts volume src dest
  unchanged : (∀ src dest, ¬ Accepts volume src dest) → ∀ env containerId s,
    mountVolume env containerId volume s = some (s, true)

variable {volume : Str}

lemma strtok_fields (volume : Str) :
    (fields volume = [] ∧ strtok ":".toList volume = none) ∨
      ∃ src rest, strtok ":".toList volume = some (src, rest) ∧
        ((fields volume = [src] ∧ strtok ":".toList rest = none) ∨
          ∃ dest rest' more, fields volume = src :: dest :: more ∧
            strtok ":".toList rest = some (dest, rest')) := by
  rcases strtok_spec ":".toList volume with ⟨hs, ht⟩ | ⟨src, rest, hs, ht, -⟩
  · exact Or.inl ⟨ht, hs⟩
  · refine Or.inr ⟨src, rest, hs, ?_⟩
    rcases strtok_spec ":".toList rest with ⟨hs', ht'⟩ | ⟨dest, rest', hs', ht', -⟩
    · refine Or.inl ⟨?_, hs'⟩
      unfold fields
      rw [ht, ht']
    · refine Or.inr ⟨dest, rest', fields rest', ?_, hs'⟩
      unfold fields
      rw [ht, ht']

/-- The function does its operations, and is undefined where they use the copy after it has been
freed. -/
lemma mountVolume_eq_perform (env : Env) (containerId : Str) (s : FsState) :
    mountVolume env containerId volume s =
      perform env containerId false (mountVolumeOps volume) s := by
  unfold mountVolume mountVolumeOps
  rcases strtok_fields volume with ⟨-, hs⟩ | ⟨src, rest, hs, ⟨-, hs'⟩ | ⟨dest, _, _, -, hs'⟩⟩
  · rw [hs]
    rfl
  · rw [hs]
    dsimp only
    rw [hs']
    by_cases hsrc : src.head? = some '/'
    · simp [rejected, hsrc, perform, VolumeOp.uses]
    · simp [rejected, hsrc, perform, VolumeOp.uses]
  · rw [hs]
    dsimp only
    rw [hs']
    by_cases hsrc : src.head? = some '/'
    · by_cases hdest : dest.head? = some '/'
      · rcases hb : bindMount env containerId src dest s with _ | ⟨s', _ | _⟩
        · simp [rejected, hsrc, hdest, perform, VolumeOp.uses, hb]
        · simp [rejected, hsrc, hdest, perform, VolumeOp.uses, hb]
        · simp [rejected, hsrc, hdest, perform, VolumeOp.uses, hb]
      · simp [rejected, hsrc, hdest, perform, VolumeOp.uses]
    · simp [rejected, hsrc, perform, VolumeOp.uses]

/-! ### Which strings are mounted -/

lemma bindMount_notMem_rejected (src dest field : Str) :
    .bindMount src dest ∉ rejected field := by
  unfold rejected
  split_ifs <;> simp

lemma bindMount_mem_iff {src dest : Str} :
    .bindMount src dest ∈ mountVolumeOps volume ↔
      ∃ more, fields volume = src :: dest :: more := by
  unfold mountVolumeOps
  rcases strtok_fields volume with
    ⟨hf, hs⟩ | ⟨src', rest, hs, ⟨hf, hs'⟩ | ⟨dest', _, more, hf, hs'⟩⟩
  · rw [hs, hf]
    simp
  · have hno := bindMount_notMem_rejected src dest src'
    rw [hs, hf]
    dsimp only
    rw [hs']
    simp [hno]
  · have hno := bindMount_notMem_rejected src dest src'
    have hno' := bindMount_notMem_rejected src dest dest'
    rw [hs, hf]
    dsimp only
    rw [hs']
    simp [hno, hno', eq_comm]

lemma mountVolume_fields (env : Env) (containerId : Str) (s : FsState) :
    mountVolume env containerId volume s =
      match fields volume with
      | [] => some (s, true)
      | src :: more =>
        if src.head? ≠ some '/' then none
        else
          match more with
          | [] => some (s, true)
          | dest :: _ =>
            if dest.head? ≠ some '/' then none
            else bindMount env containerId src dest s := by
  unfold mountVolume
  rcases strtok_fields volume with
    ⟨hf, hs⟩ | ⟨src, rest, hs, ⟨hf, hs'⟩ | ⟨dest, _, more, hf, hs'⟩⟩
  · rw [hs, hf]
  · rw [hs, hf]
    dsimp only
    rw [hs']
  · rw [hs, hf]
    dsimp only
    rw [hs']

/-- **Volume strings are validated** exactly when each of the first two fields, as far as they
are there, is absolute. -/
theorem validated_iff (volume : Str) :
    Validated volume ↔ ∀ field ∈ (fields volume).take 2, field.head? = some '/' := by
  rcases hf : fields volume with _ | ⟨src, _ | ⟨dest, more⟩⟩
  · refine iff_of_true ⟨fun src dest hmem => ?_, fun _ env containerId s => ?_⟩ (by simp)
    · obtain ⟨more, hf'⟩ := bindMount_mem_iff.mp hmem
      rw [hf] at hf'
      cases hf'
    · rw [mountVolume_fields, hf]
  · by_cases hsrc : src.head? = some '/'
    · refine iff_of_true ⟨fun src dest hmem => ?_, fun _ env containerId s => ?_⟩
        (by simpa using hsrc)
      · obtain ⟨more, hf'⟩ := bindMount_mem_iff.mp hmem
        rw [hf] at hf'
        cases hf'
      · rw [mountVolume_fields, hf]
        simp [hsrc]
    · -- the copy is freed, and `strtok` goes on with it
      refine iff_of_false (fun hv => ?_) (by simpa using hsrc)
      have hsame := hv.unchanged (fun src' dest' ⟨more, hf', _⟩ => ?_) fullHost [] ⟨[], []⟩
      · rw [mountVolume_fields, hf] at hsame
        simp [hsrc] at hsame
      · rw [hf] at hf'
        cases hf'
  · have hfirst : ∀ src' dest', Accepts volume src' dest' →
        src.head? = some '/' ∧ dest.head? = some '/' := by
      rintro src' dest' ⟨more', hf', hsrc', hdest'⟩
      rw [hf] at hf'
      cases hf'
      exact ⟨hsrc', hdest'⟩
    by_cases hboth : src.head? = some '/' ∧ dest.head? = some '/'
    · refine iff_of_true ⟨fun src' dest' hmem => ?_, fun hno => ?_⟩ (by simpa using hboth)
      · obtain ⟨more', hf'⟩ := bindMount_mem_iff.mp hmem
        rw [hf] at hf'
        cases hf'
        exact ⟨more, hf, hboth⟩
      · exact absurd ⟨more, hf, hboth⟩ (hno src dest)
    · refine iff_of_false (fun hv => ?_) (by simpa using hboth)
      have hmem : .bindMount src dest ∈ mountVolumeOps volume :=
        bindMount_mem_iff.mpr ⟨more, hf⟩
      exact hboth (hfirst src dest (hv.reached src dest hmem))

/-- `bind_mount` is called for the relative destination of `/srv:app`. -/
theorem reached_relative : ¬ ∀ volume, Validated volume := by
  intro hall
  have hmem : .bindMount "/srv".toList "app".toList ∈ mountVolumeOps "/srv:app".toList :=
    bindMount_mem_iff.mpr ⟨[], by decide⟩
  obtain ⟨more, -, -, hdest⟩ := (hall _).reached _ _ hmem
  exact absurd hdest (by decide)

/-! ### Where they are mounted -/

/-- The directory that `bind_mount` makes in the container, and mounts on. -/
def target (containerId dest : Str) : Str := pathJoin (getMergedDir containerId) [dest]

/-- The paths fit the buffers they are printed into, and the shell, and the logger if a command
fails, read them as they stand. -/
structure Plain (containerId src dest : Str) : Prop where
  fitsMerged : (getMergedDir containerId).length < 1024
  fitsSrc : src.length ≤ 2034
  fitsTarget : (target containerId dest).length ≤ 2034
  inert : ∀ c ∈ containerId ++ src ++ dest, Shell.inert c
  noFormat : '%' ∉ containerId ++ src ++ dest

variable {containerId src dest dir : Str}

lemma sprintf_mkdirCommand (h : dir.length ≤ 2034) :
    sprintf 4096 (mkdirCommand dir) = some (mkdirCommand dir) := by
  have hlen : (mkdirCommand dir).length < 4096 := by
    have htest : "test -d ".toList.length = 8 := by decide
    have hmkdir : " || sudo mkdir -p ".toList.length = 18 := by decide
    unfold mkdirCommand
    rw [List.length_append, List.length_append, List.length_append]
    omega
  unfold sprintf
  rw [if_pos hlen]

lemma target_eq (containerId dest : Str) :
    target containerId dest = getMergedDir containerId ++ '/' :: dest.dropWhile (· == '/') := by
  obtain ⟨hexact, -⟩ : (joinLoop (getMergedDir containerId) [dest]).Exact ∧
      components (joinLoop (getMergedDir containerId) [dest]).buf =
        components (getMergedDir containerId) ++ [dest].flatMap components :=
    foldl_join [dest] _ rfl
  have hlast : (getMergedDir containerId).drop ((getMergedDir containerId).length - 1) =
      ['d'] := by
    simp [getMergedDir]
  unfold JoinBuf.Exact at hexact
  unfold target pathJoin
  dsimp only
  rw [hexact, List.take_length]
  simp [joinLoop, JoinBuf.join, JoinBuf.trimEnd, hlast]

lemma mem_target {c : Char} (hc : c ∈ target containerId dest) :
    c ∈ getUnionFS ++ "/merged".toList ∨ c ∈ containerId ++ dest := by
  rw [target_eq, getMergedDir, getLayerDir] at hc
  simp only [List.mem_append, List.mem_cons] at hc ⊢
  rcases hc with (((hc | hc) | hc) | hc) | rfl | hc
  · exact Or.inl (Or.inl hc)
  · obtain rfl : c = '/' := by simpa using hc
    exact Or.inl (Or.inr (by decide))
  · exact Or.inr (Or.inl hc)
  · exact Or.inl (Or.inr hc)
  · exact Or.inl (Or.inr (by decide))
  · exact Or.inr (Or.inr ((List.dropWhile_suffix _).mem hc))

lemma literal_mkdirCommand (h : '%' ∉ dir) : literal (mkdirCommand dir) := by
  have htest : '%' ∉ "test -d ".toList := by decide
  have hmkdir : '%' ∉ " || sudo mkdir -p ".toList := by decide
  refine literal_of_notMem ?_
  unfold mkdirCommand
  rw [List.mem_append, List.mem_append, List.mem_append, or_assoc, or_assoc]
  rintro (hmem | hmem | hmem | hmem)
  · exact htest hmem
  · exact h hmem
  · exact hmkdir hmem
  · exact h hmem

lemma system_mkdirCommand (env : Env) (s : FsState) (h : '%' ∉ dir) :
    s.system env (mkdirCommand dir) = some (s.call (.system (mkdirCommand dir))) := by
  unfold FsState.system
  rw [literal_mkdirCommand h, Bool.or_true, if_pos rfl]

lemma notMem_target (h : Plain containerId src dest) : '%' ∉ target containerId dest := by
  intro hc
  rcases mem_target hc with hc | hc
  · exact absurd hc (by decide)
  · have hno := h.noFormat
    simp only [List.mem_append, not_or] at hno hc
    exact hc.elim hno.1.1 hno.2

lemma bindMount_eq (env : Env) (s : FsState) (h : Plain containerId src dest) :
    ∃ out, bindMount env containerId src dest s = some out ∧
      out.1.calls = s.calls ++
        [.system (mkdirCommand src), .system (mkdirCommand (target containerId dest)),
          .mount src (target containerId dest) "none".toList true none] := by
  have hsrc : '%' ∉ src := fun hc => h.noFormat (by simp [hc])
  have htarget := sprintf_mkdirCommand h.fitsTarget
  have hsystem := fun s => system_mkdirCommand env s (notMem_target h)
  unfold target at htarget hsystem
  unfold bindMount
  dsimp only
  simp only [sprintf_mkdirCommand h.fitsSrc, system_mkdirCommand env s hsrc, htarget, hsystem,
    Option.bind_eq_bind, Option.bind_some]
  refine ⟨_, rfl, ?_⟩
  unfold FsState.mount FsState.call target
  dsimp only
  split_ifs <;> simp

lemma commands_mkdirCommand (hdir : Shell.isPlain dir) :
    Shell.commands (mkdirCommand dir) =
      some [["test".toList, "-d".toList, dir],
        ["sudo".toList, "mkdir".toList, "-p".toList, dir]] := by
  have hline : mkdirCommand dir =
      [' '].intercalate ([Shell.orElse].intercalate
        [["test".toList, "-d".toList, dir],
          ["sudo".toList, "mkdir".toList, "-p".toList, dir]]) := by
    have htest : "test -d ".toList = "test".toList ++ ([' '] ++ ("-d".toList ++ [' '])) := by
      decide
    have hmkdir : " || sudo mkdir -p ".toList = [' '] ++ (Shell.orElse ++ ([' '] ++
        ("sudo".toList ++ ([' '] ++ ("mkdir".toList ++ ([' '] ++ ("-p".toList ++ [' ']))))))) := by
      decide
    unfold mkdirCommand
    rw [htest, hmkdir]
    simp only [List.intercalate, List.intersperse, List.flatten_cons, List.flatten_nil,
      List.append_nil, List.cons_append, List.nil_append, List.append_assoc]
  rw [hline]
  refine Shell.commands_line (by simp) fun c hc => ?_
  rcases List.mem_pair.mp hc with rfl | rfl
  · refine ⟨by simp, fun w hw => ?_⟩
    simp only [List.mem_cons, List.not_mem_nil, or_false] at hw
    rcases hw with rfl | rfl | rfl
    · decide
    · decide
    · exact hdir
  · refine ⟨by simp, fun w hw => ?_⟩
    simp only [List.mem_cons, List.not_mem_nil, or_false] at hw
    rcases hw with rfl | rfl | rfl | rfl
    · decide
    · decide
    · decide
    · exact hdir

lemma isPlain_of_absolute (ha : dir.head? = some '/') (h : ∀ c ∈ dir, Shell.inert c) :
    Shell.isPlain dir :=
  Shell.isPlain_iff.mpr ⟨h, '/', ha, by decide, by decide⟩

lemma inert_target (h : Plain containerId src dest) :
    ∀ c ∈ target containerId dest, Shell.inert c := by
  intro c hc
  rcases mem_target hc with hc | hc
  · exact List.all_eq_true.mp
      (by decide : (getUnionFS ++ "/merged".toList).all Shell.inert = true) c hc
  · refine h.inert c ?_
    rw [List.mem_append] at hc
    rcases hc with hc | hc
    · simp [hc]
    · simp [hc]

lemma resolve_target_eq (containerId dest : Str) :
    resolve (target containerId dest) =
      (walk dest).arrive (resolve (getMergedDir containerId)) := by
  refine resolve_eq_arrive ?_
  unfold target
  rw [components_pathJoin, List.flatMap_singleton]

/-- **Where volumes are mounted**: the directory in the container lies at or below the one of the
container exactly when the destination goes down again, by the same names, what it has gone up;
so it does if it never goes up above where it starts. Of an accepted volume whose paths fit their
buffers and mean nothing else to the shell or the logger, the source and that directory are
created and the one is mounted on the other. -/
theorem volume_inside_iff {volume : Str} (containerId : Str) (h : Accepts volume src dest) :
    (resolve (getMergedDir containerId) <+: resolve (target containerId dest) ↔
      (resolve (getMergedDir containerId)).drop
        ((resolve (getMergedDir containerId)).length - (walk dest).ups) <+: (walk dest).downs) ∧
    ((walk dest).ups = 0 →
      resolve (getMergedDir containerId) <+: resolve (target containerId dest)) ∧
    (Plain containerId src dest →
      (∀ env s, ∃ out, mountVolume env containerId volume s = some out ∧
        out.1.calls = s.calls ++
          [.system (mkdirCommand src), .system (mkdirCommand (target containerId dest)),
            .mount src (target containerId dest) "none".toList true none]) ∧
      ∀ dir ∈ [src, target containerId dest],
        Shell.commands (mkdirCommand dir) =
          some [["test".toList, "-d".toList, dir],
            ["sudo".toList, "mkdir".toList, "-p".toList, dir]]) := by
  obtain ⟨more, hf, hsrc, hdest⟩ := h
  have hiff := (walk dest).prefix_arrive_iff (resolve (getMergedDir containerId))
  rw [← resolve_target_eq] at hiff
  refine ⟨hiff, fun hups => hiff.mpr ?_, fun hp => ⟨fun env s => ?_, fun dir hdir => ?_⟩⟩
  · rw [hups, Nat.sub_zero, List.drop_length]
    exact List.nil_prefix
  · have hmount : mountVolume env containerId volume s = bindMount env containerId src dest s := by
      rw [mountVolume_fields, hf]
      simp [hsrc, hdest]
    rw [hmount]
    exact bindMount_eq env s hp
  · refine commands_mkdirCommand ?_
    rcases List.mem_pair.mp hdir with rfl | rfl
    · exact isPlain_of_absolute hsrc fun c hc => hp.inert c (by simp [hc])
    · exact isPlain_of_absolute (by rw [target_eq]; rfl) (inert_target hp)

theorem volume_inside_app :
    resolve (getMergedDir "c1".toList) <+: resolve (target "c1".toList "/app/../data".toList) ∧
    (∃ out, mountVolume fullHost "c1".toList "/srv:/app/../data".toList ⟨[], []⟩ = some out ∧
      out.1.calls =
        [.system (mkdirCommand "/srv".toList),
          .system (mkdirCommand (target "c1".toList "/app/../data".toList)),
          .mount "/srv".toList (target "c1".toList "/app/../data".toList) "none".toList true
            none]) ∧
    ∀ dir ∈ ["/srv".toList, target "c1".toList "/app/../data".toList],
      Shell.commands (mkdirCommand dir) =
        some [["test".toList, "-d".toList, dir],
          ["sudo".toList, "mkdir".toList, "-p".toList, dir]] := by
  have haccepts : Accepts "/srv:/app/../data".toList "/srv".toList "/app/../data".toList :=
    ⟨[], by decide⟩
  have hplain : Plain "c1".toList "/srv".toList "/app/../data".toList :=
    ⟨by decide, by decide, by decide, List.all_eq_true.mp (by decide), by decide⟩
  obtain ⟨-, hinside, hmount⟩ := volume_inside_iff "c1".toList haccepts
  obtain ⟨hcalls, hcommands⟩ := hmount hplain
  exact ⟨hinside (by decide), hcalls fullHost ⟨[], []⟩, hcommands⟩

/-- A blank makes two directories of one. -/
example : Shell.commands (mkdirCommand (target "c1".toList "/a /etc/evil".toList)) =
    some
      [["test".toList, "-d".toList, target "c1".toList "/a".toList, "/etc/evil".toList],
        ["sudo".toList, "mkdir".toList, "-p".toList, target "c1".toList "/a".toList,
          "/etc/evil".toList]] := by
  decide +kernel

/-- The directory `/etc` of the host. -/
theorem volume_outside : ¬ ∀ containerId volume src dest, Accepts volume src dest →
    resolve (getMergedDir containerId) <+: resolve (target containerId dest) := by
  intro hall
  have haccepts : Accepts "/srv:/../../../../../etc".toList "/srv".toList
      "/../../../../../etc".toList := ⟨[], by decide⟩
  exact absurd (hall "c1".toList _ _ _ haccepts) (by decide)

end Hoststack.Volumes
