import Hoststack.Store

/-!
Two processes on one data file.

No operation takes a lock, so the accesses of two of them interleave in any order. A lookup,
an insertion and an update read the file and at once write it; a removal and a stop look the
container up, which repairs a dead one, and then read the file again to change it. On a file
of records each of these halves is a function of the list of records.
-/

namespace Hoststack.Interleaving

open Cell Cell.Prog Store

/-- The operations of `ContainerDao`, with their arguments and what the system answers. -/
inductive Operation where
  | insert (info : ContainerInfo)
  | deleteById (sys : Sys) (containerName : Str)
  | update (info : ContainerInfo)
  | changeStatusToStop (sys : Sys) (now : Int64) (name : Str)
  | getContainerByIdOrName (sys : Sys) (value : Str)
  | getContainerById (value : Str)
  | getContainerByName (value : Str)
  | list

def Operation.program : Operation → Dao Unit
  | .insert info => ContainerDao.insert info
  | .deleteById sys containerName => ContainerDao.deleteById sys containerName
  | .update info => ContainerDao.update info
  | .changeStatusToStop sys now name => ContainerDao.changeStatusToStop sys now name
  | .getContainerByIdOrName sys value => do
    let _ ← ContainerDao.getContainerByIdOrName sys value
  | .getContainerById value => do let _ ← ContainerDao.getContainerById value
  | .getContainerByName value => do let _ ← ContainerDao.getContainerByName value
  | .list => do let _ ← ContainerDao.list

def Operation.IsUpdate : Operation → Prop
  | .update _ => True
  | _ => False

/-- The operations that leave the file alone. -/
def Operation.ReadsOnly : Operation → Prop
  | .getContainerById _ => True
  | .getContainerByName _ => True
  | .list => True
  | _ => False

/-- The file as one of the two operations and then the other one leave it. -/
def Serial (o₁ o₂ : Operation) (file t : DataFile) : Prop :=
  t = o₂.program.exec (o₁.program.exec file) ∨ t = o₁.program.exec (o₂.program.exec file)

/-- The records after the first block of an operation. -/
def Operation.first : Operation → List Record → List Record
  | .insert info, rs => rs ++ [info.record]
  | .deleteById sys name, rs => lookedUp sys name rs
  | .update info, rs => updated info rs
  | .changeStatusToStop sys _ name, rs => lookedUp sys name rs
  | .getContainerByIdOrName sys value, rs => lookedUp sys value rs
  | .getContainerById _, rs => rs
  | .getContainerByName _, rs => rs
  | .list, rs => rs

/-- What the second block of an operation does to the records, if the first has read `rs`. -/
def Operation.second : Operation → List Record → List Record → List Record
  | .deleteById sys name, rs, rs' =>
    match found sys name rs with
    | some r => rs'.filter fun x => x.id ≠ r.id
    | none => rs'
  | .changeStatusToStop sys now name, rs, rs' =>
    match found sys name rs with
    | some r => updated (r.info.stopedAt now) rs'
    | none => rs'
  | _, _, rs' => rs'

/-- The records after an operation. -/
def Operation.after (o : Operation) (rs : List Record) : List Record := o.second rs (o.first rs)

variable {file t : DataFile} {rs : List Record} {tr : List Access}

lemma Represents.size (h : Represents file rs) : file.root.size = rs.length := by
  cases h with
  | missing => rfl
  | empty => rfl
  | null => rfl
  | arr h => exact h.length_eq.symm

/-! ### The blocks of the operations -/

lemma block_lookup (h : Represents file rs) (sys : Sys) (value : Str)
    (f : Option ContainerInfo → Dao Unit)
    (hf : ∀ info s, (f info).flush s = (f info, s)) :
    ∃ file', (ContainerDao.getContainerByIdOrName sys value >>= f).block file =
        (f ((found sys value rs).map Record.info), file') ∧
      Represents file' (lookedUp sys value rs) := by
  rcases h.cases_nil with ⟨rfl, hno | hno⟩ | ⟨l, rfl, hne, hl⟩
  · refine ⟨file, ?_, by simpa [lookedUp] using h⟩
    simp [ContainerDao.getContainerByIdOrName, hno, found, hf]
  · refine ⟨file, ?_, by simpa [lookedUp] using h⟩
    cases hp : file.parses <;>
      simp [ContainerDao.getContainerByIdOrName, hno, hp, found, hf]
  · obtain ⟨l', record, dead, hrun, hpack, hl', hsame⟩ := lookupLoop_spec hl sys value
    cases dead with
    | false =>
      rw [hsame rfl] at hl'
      refine ⟨_, ?_, .arr hl'⟩
      simp [ContainerDao.getContainerByIdOrName, DataFile.parses, DataFile.root, Json.size, hne,
        Json.elems, hrun, hpack, hf]
    | true =>
      refine ⟨_, ?_, .arr hl'⟩
      simp [ContainerDao.getContainerByIdOrName, DataFile.parses, DataFile.root, Json.size, hne,
        Json.elems, hrun, hpack]

lemma block_update (h : Represents file rs) (hne : rs ≠ []) (info : ContainerInfo) :
    ∃ file', (ContainerDao.update info).block file = (pure (), file') ∧
      Represents file' (updated info rs) := by
  rcases h.cases_nil with ⟨hnil, -⟩ | ⟨l, rfl, hl, hrep⟩
  · exact absurd hnil hne
  · obtain ⟨l', hrun, hl'⟩ := updateLoop_spec hrep info
    refine ⟨_, ?_, .arr hl'⟩
    simp [ContainerDao.update, DataFile.isMissing, DataFile.parses, DataFile.root, Json.size, hl,
      Json.elems, hrun]

/-- `delete_by_id` from where it opens the file. -/
def deleteRest (info : Option ContainerInfo) : Dao Unit := do
  let file ← get
  if file.parses = false then return
  if file.root.size = 0 then return
  let newRoot ← ofOption (file.root.elems >>= fun l => ContainerDao.deleteLoop info l .null)
  put (.parsed newRoot)

lemma block_deleteRest (info : Option ContainerInfo) (file : DataFile) :
    ((deleteRest info).block file).1.Halted := by
  unfold deleteRest
  rw [block_get_bind]
  cases hp : file.parses with
  | false => simp
  | true =>
    by_cases hs : file.root.size = 0
    · simp [hs]
    · rcases file.root.elems >>= fun l => ContainerDao.deleteLoop info l .null with _ | j
      · simp [hs]
      · simp [hs]

lemma deleteRest_run (h : Represents file rs) (r : Record) :
    Represents ((deleteRest (some r.info)).exec file) (rs.filter fun x => x.id ≠ r.id) := by
  unfold deleteRest exec
  rcases h.cases_nil with ⟨rfl, hno | hno⟩ | ⟨l, rfl, hne, hl⟩
  · simpa [run_bind, hno] using h
  · cases hp : file.parses <;> simpa [run_bind, hno, hp] using h
  · obtain ⟨l', hrun, hl'⟩ := deleteLoop_spec hl r.info []
    have hloop : ContainerDao.deleteLoop (some r.info) l .null = some (rootOf l') := hrun
    have hrep : Represents (.parsed (rootOf l')) (rs.filter fun x => x.id ≠ r.id) :=
      represents_rootOf hl'
    simpa [run_bind, DataFile.parses, DataFile.root, Json.size, hne, Json.elems, hloop] using hrep

lemma deleteRest_run_none (h : Represents file rs) :
    Represents ((deleteRest none).exec file) rs := by
  unfold deleteRest exec
  rcases h.cases_nil with ⟨rfl, hno | hno⟩ | ⟨l, rfl, hne, hl⟩
  · simpa [run_bind, hno] using h
  · cases hp : file.parses <;> simpa [run_bind, hno, hp] using h
  · have hloop : ContainerDao.deleteLoop none l .null = none := by
      cases hl with
      | nil => exact absurd rfl hne
      | cons hj _ =>
        unfold ContainerDao.deleteLoop
        rw [holds_id hj]
        simp
    simpa [run_bind, DataFile.parses, DataFile.root, Json.size, hne, Json.elems, hloop] using h

lemma block_getContainerBy (key : String) (value : Str) (file : DataFile) :
    ∃ p, (do let _ ← ContainerDao.getContainerBy key value : Dao Unit).block file = (p, file) ∧
      p.Halted := by
  unfold ContainerDao.getContainerBy
  rw [LawfulMonad.bind_assoc, block_get_bind]
  cases hp : file.parses with
  | false => exact ⟨pure (), by simp⟩
  | true =>
    by_cases hs : file.root.size = 0
    · exact ⟨pure (), by simp [hs]⟩
    · rcases file.root.elems >>= ContainerDao.findLoop key value with _ | record
      · exact ⟨crash, by simp [hs]⟩
      · exact ⟨pure (), by simp [hs]⟩

lemma block_list (file : DataFile) :
    ∃ p, (do let _ ← ContainerDao.list : Dao Unit).block file = (p, file) ∧ p.Halted := by
  unfold ContainerDao.list
  rw [LawfulMonad.bind_assoc, block_get_bind]
  cases hp : file.parses with
  | false => exact ⟨pure (), by simp⟩
  | true =>
    by_cases hs : file.root.size = 0
    · exact ⟨pure (), by simp [hs]⟩
    · rcases file.root.elems >>= fun l => l.mapM ContainerInfo.packContainerInfo with _ | infos
      · exact ⟨crash, by simp [hs]⟩
      · exact ⟨pure (), by simp [hs]⟩

/-- The two blocks of an operation do to the records what `first` and `second` say. -/
structure Blocks (o : Operation) (file : DataFile) (rs : List Record) : Prop where
  first : Represents (o.program.block file).2 (o.first rs)
  second : ∀ file' rs', Represents file' rs' →
    Represents ((o.program.block file).1.exec file') (o.second rs rs')
  done : ∀ file' rs', Represents file' rs' → (rs' = [] → rs = []) →
    ((o.program.block file).1.block file').1.Halted

lemma Blocks.of_halted {o : Operation} {p : Dao Unit} {file' : DataFile}
    (h : o.program.block file = (p, file')) (hp : p.Halted) (hrep : Represents file' (o.first rs))
    (hsecond : ∀ rs', o.second rs rs' = rs') : Blocks o file rs where
  first := by rwa [h]
  second file'' rs' h' := by rwa [h, hp.exec, hsecond]
  done file'' rs' _ _ := by rwa [h, hp.block]

lemma blocks_deleteById (h : Represents file rs) (sys : Sys) (name : Str) :
    Blocks (.deleteById sys name) file rs := by
  obtain ⟨file', hrun, hrep⟩ := block_lookup h sys name deleteRest fun _ _ => rfl
  change (Operation.deleteById sys name).program.block file = _ at hrun
  refine ⟨by rwa [hrun], fun file'' rs' h' => ?_, fun file'' rs' _ _ => ?_⟩
  · rw [hrun]
    simp only [Operation.second]
    cases found sys name rs with
    | none => exact deleteRest_run_none h'
    | some r => exact deleteRest_run h' r
  · rw [hrun]
    exact block_deleteRest _ _

lemma blocks_changeStatusToStop (h : Represents file rs) (sys : Sys) (now : Int64)
    (name : Str) : Blocks (.changeStatusToStop sys now name) file rs := by
  obtain ⟨file', hrun, hrep⟩ := block_lookup h sys name
    (fun info => ofOption info >>= fun info => ContainerDao.update (info.stopedAt now))
    (by rintro (_ | info) s <;> rfl)
  change (Operation.changeStatusToStop sys now name).program.block file = _ at hrun
  refine ⟨by rwa [hrun], fun file'' rs' h' => ?_, fun file'' rs' h' hnil => ?_⟩
  · rw [hrun]
    simp only [Operation.second]
    cases found sys name rs with
    | none => exact h'
    | some r =>
      obtain ⟨file₂, hup, h₂⟩ := update_run h' (r.info.stopedAt now)
      simpa [exec, hup] using h₂
  · rw [hrun]
    cases hf : found sys name rs with
    | none => trivial
    | some r =>
      have hne : rs' ≠ [] := fun hnil' => by
        rw [hnil hnil'] at hf
        cases hf
      obtain ⟨file₂, hup, -⟩ := block_update h' hne (r.info.stopedAt now)
      simp [hup]

/-- Two blocks: an operation on a file of records is done after two blocks, if it is not an
update of a file without any. -/
lemma blocks (h : Represents file rs) (o : Operation) (hu : rs = [] → ¬ o.IsUpdate) :
    Blocks o file rs := by
  cases o with
  | insert info =>
    obtain ⟨j, hw, hj, -⟩ := dePack_spec (j := .null) trivial info
    obtain ⟨root, hroot, hrep⟩ := h.root_append hj
    have hrun : (Operation.insert info).program.block file = (pure (), .parsed root) := by
      simp [Operation.program, ContainerDao.insert, hw, hroot]
    exact .of_halted hrun trivial hrep fun _ => rfl
  | deleteById sys name => exact blocks_deleteById h sys name
  | update info =>
    obtain ⟨file', hrun, hrep⟩ := block_update h (fun hnil => hu hnil trivial) info
    exact .of_halted hrun trivial hrep fun _ => rfl
  | changeStatusToStop sys now name => exact blocks_changeStatusToStop h sys now name
  | getContainerByIdOrName sys value =>
    obtain ⟨file', hrun, hrep⟩ := block_lookup h sys value (fun _ => pure ()) fun _ _ => rfl
    exact .of_halted hrun trivial hrep fun _ => rfl
  | getContainerById value =>
    obtain ⟨p, hrun, hp⟩ := block_getContainerBy "id" value file
    exact .of_halted hrun hp h fun _ => rfl
  | getContainerByName value =>
    obtain ⟨p, hrun, hp⟩ := block_getContainerBy "name" value file
    exact .of_halted hrun hp h fun _ => rfl
  | list =>
    obtain ⟨p, hrun, hp⟩ := block_list file
    exact .of_halted hrun hp h fun _ => rfl

lemma exec_represents (h : Represents file rs) (o : Operation) :
    Represents (o.program.exec file) (o.after rs) := by
  by_cases hu : rs = [] → ¬ o.IsUpdate
  · have hb := blocks h o hu
    rw [← exec_block]
    exact hb.second _ _ hb.first
  · have hup : o.IsUpdate := by
      by_contra hno
      exact hu fun _ => hno
    cases o with
    | update info =>
      obtain ⟨file', hrun, hrep⟩ := update_run h info
      simpa [Operation.program, Operation.after, Operation.second, Operation.first, exec, hrun]
        using hrep
    | _ => exact hup.elim

lemma exec_insert (h : Represents file rs) (info : ContainerInfo) :
    Represents ((Operation.insert info).program.exec file) (rs ++ [info.record]) :=
  exec_represents h (.insert info)

/-! ### Two operations -/

lemma first_eq_nil {o : Operation} (h : o.first rs = []) : rs = [] := by
  cases o with
  | insert info => simp [Operation.first] at h
  | deleteById sys name => exact lookedUp_eq_nil_iff.mp h
  | update info => exact updateFirst_eq_nil_iff.mp h
  | changeStatusToStop sys now name => exact lookedUp_eq_nil_iff.mp h
  | getContainerByIdOrName sys value => exact lookedUp_eq_nil_iff.mp h
  | getContainerById value => exact h
  | getContainerByName value => exact h
  | list => exact h

/-- The records where the second operation runs between the two blocks of the first. -/
def within (o₁ o₂ : Operation) (rs : List Record) : List Record :=
  o₁.second rs (o₂.after (o₁.first rs))

/-- The records where both operations, the first one first, make their first block before they
make their second in the same order. -/
def across (o₁ o₂ : Operation) (rs : List Record) : List Record :=
  o₂.second (o₁.first rs) (o₁.second rs (o₂.first (o₁.first rs)))

/-- Two operations run one after the other, or the second one begins between the two blocks of
the first. -/
lemma halves {o₁ o₂ : Operation} (hb : Blocks o₁ file rs) (h₂ : rs = [] → ¬ o₂.IsUpdate)
    (ha : Atomic (o₁.program.block file).1
      (o₂.program.block (o₁.program.block file).2).1
      (o₂.program.block (o₁.program.block file).2).2 t) :
    Represents t (within o₁ o₂ rs) ∨ Represents t (across o₁ o₂ rs) := by
  have hb₂ := blocks hb.first o₂ fun hnil => h₂ (first_eq_nil hnil)
  have hdone₁ := hb.done _ _ hb₂.first fun hnil => first_eq_nil (first_eq_nil hnil)
  have hdone₂ := hb₂.done _ _ hb₂.first first_eq_nil
  rcases ha.serial_of_block hdone₁ hdone₂ with rfl | rfl
  · exact Or.inr (hb₂.second _ _ (hb.second _ _ hb₂.first))
  · exact Or.inl (hb.second _ _ (hb₂.second _ _ hb₂.first))

/-- **Orders of the blocks**: if neither operation writes between the other's last read and its
write, they run one after the other or their blocks alternate. -/
theorem orders {o₁ o₂ : Operation} (h : Represents file rs) (h₁ : rs = [] → ¬ o₁.IsUpdate)
    (h₂ : rs = [] → ¬ o₂.IsUpdate) (hi : Interleaves o₁.program o₂.program file tr t)
    (hl : ¬ Overwrites .left tr) (hr : ¬ Overwrites .right tr) :
    Serial o₁ o₂ file t ∨
      (Represents t (within o₁ o₂ rs) ∨ Represents t (across o₁ o₂ rs)) ∨
      (Represents t (within o₂ o₁ rs) ∨ Represents t (across o₂ o₁ rs)) := by
  have hb₁ := blocks h o₁ h₁
  have hb₂ := blocks h o₂ h₂
  have hdone₁ := hb₁.done _ _ hb₁.first first_eq_nil
  have hdone₂ := hb₂.done _ _ hb₂.first first_eq_nil
  rcases (hi.atomic (.same hl) (.same hr)).two_blocks hdone₁ hdone₂ with ht | ht | ha | ha
  · exact Or.inl (Or.inl ht)
  · exact Or.inl (Or.inr ht)
  · exact Or.inr (Or.inl (halves hb₁ h₂ ha))
  · exact Or.inr (Or.inr (halves hb₂ h₁ ha.swap))

lemma silent_getContainerBy (key : String) (value : Str) :
    (ContainerDao.getContainerBy key value).Silent := by
  refine Silent.bind (p := get) (fun _ => trivial) fun file => ?_
  split_ifs
  · trivial
  · trivial
  · exact silent_ofOption _

lemma silent_list : ContainerDao.list.Silent := by
  refine Silent.bind (p := get) (fun _ => trivial) fun file => ?_
  split_ifs
  · trivial
  · trivial
  · exact (silent_ofOption _).bind fun _ => trivial

lemma silent_of_readsOnly {o : Operation} (ho : o.ReadsOnly) : o.program.Silent := by
  cases o with
  | getContainerById value => exact (silent_getContainerBy "id" value).bind fun _ => trivial
  | getContainerByName value => exact (silent_getContainerBy "name" value).bind fun _ => trivial
  | list => exact silent_list.bind fun _ => trivial
  | _ => exact ho.elim

lemma serial_of_readsOnly {o₁ o₂ : Operation} (ho : o₁.ReadsOnly ∨ o₂.ReadsOnly)
    (hi : Interleaves o₁.program o₂.program file tr t) : Serial o₁ o₂ file t := by
  rcases ho with ho | ho
  · have hsilent := silent_of_readsOnly ho
    refine Or.inl ?_
    rw [hsilent.exec]
    exact hi.swap.exec_of_silent hsilent
  · have hsilent := silent_of_readsOnly ho
    refine Or.inr ?_
    rw [hsilent.exec]
    exact hi.exec_of_silent hsilent

/-- A second container. -/
def otherInfo : ContainerInfo := { ranInfo with id := "c2".toList, name := "db".toList }

end Hoststack.Interleaving
