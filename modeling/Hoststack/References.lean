import Hoststack.Commands

/-!
What a string that is given to a command refers to.

`run` looks a new name up among the names, and a lookup searches names and ids together; so a
container that is named with the id of another one is found in its place, or instead of it.
-/

namespace Hoststack.References

open Cell Cell.Prog ContainerDao Store StoreInv Commands

/-- No two records match the string. -/
def Unambiguous (value : Str) (rs : List Record) : Prop :=
  rs.Pairwise fun a b => ¬ (hits value a ∧ hits value b)

/-- A new container is not named with the id of one that is there. -/
def NamesNoId (s : Ledger) : Event → Prop
  | .run args _ => ∀ info ∈ survivors s.log, info.id ≠ args.name.getD []
  | _ => True

instance : ∀ s e, Decidable (NamesNoId s e)
  | s, .run args _ =>
    inferInstanceAs (Decidable (∀ info ∈ survivors s.log, info.id ≠ args.name.getD []))
  | _, .start .. | _, .stop .. | _, .exec .. | _, .attach .. | _, .ps | _, .rm ..
  | _, .monitorExit .. | _, .supervisorRestart .. => inferInstanceAs (Decidable True)

/-! ### What is recorded -/

/-- An event that records a container is `run`, and records it under the name it is given. -/
def RecordsNamed (e : Event) : Option Entry → Prop
  | some (.inserted info) => ∃ args env, e = .run args env ∧ info.name = args.name.getD []
  | _ => True

lemma recordContainer_returns (args : RunArgs) (env : RunEnv) :
    (recordContainer args env).Returns (RecordsNamed (.run args env)) := by
  unfold recordContainer
  cases env.pid with
  | none => exact returns_pure trivial
  | some pid => exact .bind (fun _ => .bind (fun _ => returns_pure ⟨args, env, rfl, rfl⟩) _) _

variable {P : Option Entry → Prop}

lemma start_returns (hnone : P none) (sys : Sys) (containerName : Str) (pid : Option Int32)
    (now : Int64) : (start sys containerName pid now).Returns P := by
  refine .bind (fun info => ?_) _
  cases info with
  | none => exact returns_pure hnone
  | some info =>
    dsimp only
    split_ifs
    · exact returns_pure hnone
    · cases pid with
      | none => exact returns_pure hnone
      | some pid => exact .bind (fun _ => returns_pure hnone) _

lemma resolve_returns (hnone : P none) (sys : Sys) (name : Str) :
    (resolve sys name).Returns P :=
  .bind (fun _ => returns_pure hnone) _

lemma removeContainer_returns (hnone : P none) (hdeleted : ∀ id, P (some (.deleted id)))
    (force : Bool) (sys sysStop sysDelete : Sys) (removed : Bool) (containerName : Str) :
    (removeContainer force sys sysStop sysDelete removed containerName).Returns P := by
  refine .bind (fun info => ?_) _
  cases info with
  | none => exact returns_pure hnone
  | some info =>
    have hdelete : (deleteById sysDelete info.id >>= fun _ =>
        pure (some (.deleted info.id))).Returns P :=
      .bind (fun _ => returns_pure (hdeleted info.id)) _
    dsimp only
    split_ifs
    · exact .bind (fun _ => hdelete) _
    · exact .bind (fun _ => returns_pure hnone) _
    · exact returns_pure hnone
    · exact hdelete
    · exact returns_pure hnone

lemma program_returns (e : Event) : e.program.Returns (RecordsNamed e) := by
  cases e with
  | run args env =>
    dsimp only [Event.program]
    unfold Commands.run
    cases args.name with
    | none => exact recordContainer_returns args env
    | some name =>
      refine .bind (fun info => ?_) _
      split_ifs
      · exact returns_pure trivial
      · exact recordContainer_returns args env
  | start sys containerName pid now => exact start_returns trivial sys containerName pid now
  | stop sys name | exec sys name | attach sys name => exact resolve_returns trivial sys name
  | ps => exact .bind (fun _ => returns_pure trivial) _
  | rm force sys sysStop sysDelete removed containerName =>
    exact removeContainer_returns trivial (fun _ => trivial) force sys sysStop sysDelete removed
      containerName
  | monitorExit sysUmount sys now id =>
    exact .bind (fun _ => .bind (fun _ => .bind (fun _ => returns_pure trivial) _) _) _
  | supervisorRestart proc sysStop now sysStart pid startTime id =>
    refine .bind (fun _ => .bind (fun info => ?_) _) _
    split_ifs
    · exact .bind (fun _ => start_returns trivial sysStart info.id pid startTime) _
    · exact returns_pure trivial

/-! ### Any run -/

/-- No later container is named with the id of an earlier one. -/
def NamesApart (infos : List ContainerInfo) : Prop := infos.Pairwise fun a b => a.id ≠ b.name

lemma namesApart_step {s : Ledger} {e : Event} (h : NamesApart (survivors s.log))
    (he : NamesNoId s e) : NamesApart (survivors (s.step e).log) := by
  rcases hrun : e.program.run s.file with ⟨file, result⟩
  have hlog : (s.step e).log = s.log ++ (result.bind id).toList := by
    unfold Ledger.step
    rw [hrun]
  rw [hlog]
  rcases result with _ | _ | entry
  · simpa using h
  · simpa using h
  · have hreturns : RecordsNamed e (some entry) := (program_returns e).of_run hrun
    change NamesApart (survivors (s.log ++ [entry]))
    cases entry with
    | inserted info =>
      obtain ⟨args, env, rfl, hname⟩ := hreturns
      rw [survivors_inserted]
      refine List.pairwise_append.mpr ⟨h, by simp, fun a ha b hb => ?_⟩
      rw [List.mem_singleton.mp hb, hname]
      exact he a ha
    | deleted id =>
      rw [survivors_deleted]
      exact h.filter _

/-- The records of different containers have nothing in common that a lookup looks at, unless
both have no name. -/
structure Apart (a b : Record) : Prop where
  ids : a.id ≠ b.id
  nameId : a.name ≠ b.id
  idName : a.id ≠ b.name
  names : a.name = b.name → a.name = []

lemma Apart.hits_both {a b : Record} (h : Apart a b) {value : Str} (ha : hits value a)
    (hb : hits value b) : a.name = [] ∧ b.name = [] ∧ value = [] := by
  simp only [hits, Bool.or_eq_true, decide_eq_true_eq] at ha hb
  rcases ha with ha | ha
  · rcases hb with hb | hb
    · have hempty : a.name = [] := h.names (ha.trans hb.symm)
      exact ⟨hempty, hb.trans (ha.symm.trans hempty), ha.symm.trans hempty⟩
    · exact absurd (ha.trans hb.symm) h.nameId
  · rcases hb with hb | hb
    · exact absurd (ha.trans hb.symm) h.idName
    · exact absurd (ha.trans hb.symm) h.ids

variable {rs : List Record}

lemma unambiguous_iff (h : rs.Pairwise Apart) (value : Str) :
    Unambiguous value rs ↔ value ≠ [] ∨ (rs.filter fun r => r.name = []).length ≤ 1 := by
  rw [← pairwise_not_both_iff]
  unfold Unambiguous
  by_cases hv : value = []
  · subst hv
    refine Iff.trans ?_ (or_iff_right (not_not.mpr rfl)).symm
    constructor
    · intro hu
      refine hu.imp fun {a b} hab hboth => hab ?_
      have ha : a.name = [] := of_decide_eq_true hboth.1
      have hb : b.name = [] := of_decide_eq_true hboth.2
      simp [hits, ha, hb]
    · intro hu
      refine (h.and hu).imp fun {a b} hab hboth => hab.2 ?_
      obtain ⟨ha, hb, -⟩ := hab.1.hits_both hboth.1 hboth.2
      exact ⟨decide_eq_true ha, decide_eq_true hb⟩
  · refine iff_of_true ?_ (Or.inl hv)
    refine h.imp fun {a b} hab => ?_
    rintro ⟨ha, hb⟩
    exact hv (hab.hits_both ha hb).2.2

lemma Apart.symm {a b : Record} (h : Apart a b) : Apart b a := by
  refine ⟨h.ids.symm, h.idName.symm, h.nameId.symm, fun heq => ?_⟩
  exact heq.trans (h.names heq.symm)

lemma eq_of_hits (h : rs.Pairwise Apart) {r r' : Record} (hr : r ∈ rs) (hr' : r' ∈ rs)
    {value : Str} (hvalue : value = r.id ∨ value = r.name ∧ value ≠ [])
    (hhit : hits value r') : r' = r := by
  have hsymm : Std.Symm Apart := ⟨fun _ _ hab => hab.symm⟩
  by_contra hne
  have hapart : Apart r' r := h.forall hr' hr hne
  have hname : r'.name = value ∨ r'.id = value := by simpa [hits] using hhit
  rcases hvalue with rfl | ⟨rfl, hnamed⟩
  · exact hname.elim hapart.nameId hapart.ids
  · rcases hname with hname | hid
    · exact hnamed (hname.symm.trans (hapart.names hname))
    · exact hapart.idName hid

lemma found_of_hits {r : Record} (hr : r ∈ rs) {value : Str} (hhit : hits value r)
    (honly : ∀ r' ∈ rs, hits value r' → r' = r) (sys : Sys) :
    found sys value rs = some (repaired sys r) := by
  obtain ⟨r', hr'⟩ : ∃ r', rs.find? (hits value) = some r' :=
    Option.isSome_iff_exists.mp (List.find?_isSome.mpr ⟨r, hr, hhit⟩)
  have hsame : r' = r := honly r' (List.mem_of_find?_eq_some hr') (List.find?_some hr')
  unfold found
  rw [hr', hsame]
  rfl

/-- The records of a run in which no container is named with the id of another one. -/
lemma exists_apart {s : Ledger}
    (h : machine.Reach (fun s e => Admissible s e ∧ NamesNoId s e) s) :
    ∃ rs, Inv s.file ((survivors s.log).map bornOf) rs ∧ rs.Pairwise Apart := by
  obtain ⟨⟨rs, hinv⟩, hnames⟩ := kept_reach (h.mono fun _ _ hok => hok.1)
  have hapart : NamesApart (survivors s.log) := by
    refine h.invariant (I := fun s => NamesApart (survivors s.log)) (fun s hs => ?_) ?_
    · rw [hs.2]
      exact List.Pairwise.nil
    · intro s e s' hi hok hs
      cases hs
      exact namesApart_step hi hok.2
  have hd : Distinct (rs.map birth) := hinv.births.symm ▸ hinv.distinct
  have hborn : (rs.map birth).Pairwise fun a b => a.id ≠ b.name := by
    rw [hinv.births]
    exact List.pairwise_map.mpr hapart
  have hall := (List.pairwise_map.mp hd.ids).and ((List.pairwise_map.mp hd.order).and
    ((List.pairwise_map.mp hborn).and (hnames.of_births hinv.births)))
  refine ⟨rs, hinv, hall.imp fun {a b} hab => ?_⟩
  obtain ⟨hids, hnameId, hidName, hname⟩ := hab
  exact ⟨hids, hnameId, hidName, hname⟩

/-- **References**: after any run in which no container is named with the id of one that is
there, a string matches at most one record unless it is empty and several have no name, and the
id and the name of a container are found to be that container. -/
theorem references_unambiguous {s : Ledger}
    (h : machine.Reach (fun s e => Admissible s e ∧ NamesNoId s e) s) :
    ∃ rs, Represents s.file rs ∧
      (∀ value, Unambiguous value rs ↔
        value ≠ [] ∨ (rs.filter fun r => r.name = []).length ≤ 1) ∧
      ∀ r ∈ rs, ∀ value, value = r.id ∨ value = r.name ∧ value ≠ [] →
        (∀ r' ∈ rs, hits value r' → r' = r) ∧
        ∀ sys, ((getContainerByIdOrName sys value).run s.file).2 =
          some (some (repaired sys r).info) := by
  obtain ⟨rs, hinv, hapart⟩ := exists_apart h
  refine ⟨rs, hinv.represents, unambiguous_iff hapart, fun r hr value hvalue => ?_⟩
  have honly : ∀ r' ∈ rs, hits value r' → r' = r := fun r' hr' hhit =>
    eq_of_hits hapart hr hr' hvalue hhit
  have hhit : hits value r := by
    rcases hvalue with rfl | ⟨rfl, -⟩
    · simp [hits]
    · simp [hits]
  refine ⟨honly, fun sys => ?_⟩
  obtain ⟨file', hrun, -⟩ := hinv.lookup sys value
  rw [hrun, found_of_hits hr hhit honly]
  rfl

/-- `run --name web`, and then `run` of a second container with the name `name`. -/
def ranTwo (name : Option Str) : List Event :=
  [.run ⟨some "web".toList, ["httpd".toList], ∅⟩ ⟨"c1".toList, some 4711, 1700000000, 1700000000⟩,
    .run ⟨name, ["sh".toList], ∅⟩ ⟨"c2".toList, some 4720, 1700000010, 1700000010⟩]

lemma ranTwo_meets (name : Option Str) :
    machine.Meets Admissible ⟨.missing, []⟩ (ranTwo name) := by
  have hpid : ∀ p q : Int32, 0 < p → some p = some q → 0 < q := by
    rintro p q hp ⟨⟩
    exact hp
  refine .cons ⟨by decide, fun q => hpid 4711 q (by decide)⟩ rfl ?_
  exact ⟨⟨by decide, fun q => hpid 4720 q (by decide)⟩, fun t _ => trivial⟩

lemma start_reach {ok : Ledger → Event → Prop} : machine.Reach ok ⟨.missing, []⟩ :=
  .start ⟨Or.inl rfl, rfl⟩

theorem references_unambiguous_two :
    ∃ s rs, machine.runs ⟨.missing, []⟩ (ranTwo (some "db".toList)) = some s ∧
      Represents s.file rs ∧ Unambiguous "db".toList rs := by
  have hmeets : machine.Meets (fun s e => Admissible s e ∧ NamesNoId s e) ⟨.missing, []⟩
      (ranTwo (some "db".toList)) := by
    obtain ⟨hfirst, hrest⟩ := ranTwo_meets (some "db".toList)
    refine .cons ⟨hfirst, fun info hinfo => (by cases hinfo)⟩ rfl ?_
    exact ⟨⟨(hrest _ rfl).1, by decide⟩, fun t _ => trivial⟩
  obtain ⟨rs, hrep, hiff, -⟩ := references_unambiguous (start_reach.runs hmeets rfl)
  exact ⟨_, rs, rfl, hrep, (hiff _).mpr (Or.inl (by decide))⟩

/-- A second container is named with the id of the first, and both match it. -/
theorem references_ambiguous : ¬ ∀ s, machine.Reach Admissible s → ∀ rs,
    Represents s.file rs → ∀ value, Unambiguous value rs := by
  intro hall
  have hreach := start_reach.runs (ranTwo_meets (some "c1".toList)) rfl
  obtain ⟨⟨rs, hinv⟩, -⟩ := kept_reach hreach
  have hbirths : rs.map birth = [⟨"c1".toList, "web".toList, "httpd".toList, 1700000000, ∅⟩,
      ⟨"c2".toList, "c1".toList, "sh".toList, 1700000010, ∅⟩] :=
    hinv.births.trans (by decide)
  have hboth : (rs.map birth).Pairwise fun a b =>
      ¬ ((a.name = "c1".toList ∨ a.id = "c1".toList) ∧
        (b.name = "c1".toList ∨ b.id = "c1".toList)) := by
    refine List.pairwise_map.mpr ((hall _ hreach rs hinv.represents "c1".toList).imp ?_)
    intro a b hab
    simpa [hits, birth] using hab
  rw [hbirths] at hboth
  exact absurd hboth (by decide)

end Hoststack.References
