import Mathlib.Data.List.Basic

/-!
Programs over one shared cell.

A program reads the whole cell, overwrites it, returns or dies; what it writes is computed
from what it has read. Run alone it is a function of the cell. Two programs run together
interleave access by access, and the interleaving leaves what some serial order leaves as
soon as their conflicting accesses all come in one order.
-/

namespace Hoststack.Cell

universe u v

/-- A program over a cell of type `σ`; `crash` is a program that has died. -/
inductive Prog (σ : Type u) (α : Type v) where
  | ret (a : α)
  | crash
  | read (k : σ → Prog σ α)
  | write (s : σ) (p : Prog σ α)

variable {σ : Type u} {α β γ : Type v}

namespace Prog

def bind : Prog σ α → (α → Prog σ β) → Prog σ β
  | .ret a, f => f a
  | .crash, _ => .crash
  | .read k, f => .read fun s => (k s).bind f
  | .write s p, f => .write s (p.bind f)

instance : Monad (Prog σ) where
  pure := .ret
  bind := bind

lemma bind_ret (p : Prog σ α) : p.bind .ret = p := by
  induction p with
  | ret a => rfl
  | crash => rfl
  | read k ih => simp only [bind]; exact congrArg _ (funext ih)
  | write s p ih => simp only [bind, ih]

lemma bind_assoc (p : Prog σ α) (f : α → Prog σ β) (g : β → Prog σ γ) :
    (p.bind f).bind g = p.bind fun a => (f a).bind g := by
  induction p with
  | ret a => rfl
  | crash => rfl
  | read k ih => simp only [bind]; exact congrArg _ (funext ih)
  | write s p ih => simp only [bind, ih]

instance : LawfulMonad (Prog σ) :=
  LawfulMonad.mk' _ bind_ret (fun _ _ => rfl) bind_assoc

/-- The whole cell. -/
def get : Prog σ σ := .read .ret

/-- Overwrite the cell. -/
def put (s : σ) : Prog σ PUnit := .write s (.ret ⟨⟩)

/-- A computation that kills the program when it has no result. -/
def ofOption : Option α → Prog σ α
  | some a => .ret a
  | none => .crash

@[simp] lemma ofOption_some (a : α) : (ofOption (some a) : Prog σ α) = pure a := rfl
@[simp] lemma ofOption_none : (ofOption none : Prog σ α) = .crash := rfl
@[simp] lemma crash_bind (f : α → Prog σ β) : (crash : Prog σ α) >>= f = crash := rfl
@[simp] lemma map_crash (f : α → β) : f <$> (crash : Prog σ α) = crash := rfl

/-- What the program leaves in the cell and returns when it runs alone. -/
def run : Prog σ α → σ → σ × Option α
  | .ret a, s => (s, some a)
  | .crash, s => (s, none)
  | .read k, s => (k s).run s
  | .write s p, _ => p.run s

@[simp] lemma run_pure (a : α) (s : σ) : (pure a : Prog σ α).run s = (s, some a) := rfl
@[simp] lemma run_crash (s : σ) : (crash : Prog σ α).run s = (s, none) := rfl
@[simp] lemma run_get (s : σ) : (get : Prog σ σ).run s = (s, some s) := rfl
@[simp] lemma run_put (s t : σ) : (put t).run s = (t, some ⟨⟩) := rfl

lemma run_bind (p : Prog σ α) (f : α → Prog σ β) (s : σ) :
    (p >>= f).run s =
      match p.run s with
      | (t, some a) => (f a).run t
      | (t, none) => (t, none) := by
  change (p.bind f).run s = _
  induction p generalizing s with
  | ret a => rfl
  | crash => rfl
  | read k ih => exact ih s s
  | write t p ih => exact ih t

@[simp] lemma run_map (f : α → β) (p : Prog σ α) (s : σ) :
    (f <$> p).run s = ((p.run s).1, (p.run s).2.map f) := by
  rw [← bind_pure_comp, run_bind]
  rcases p.run s with ⟨t, _ | a⟩ <;> rfl

lemma run_bind_some {p : Prog σ α} {f : α → Prog σ β} {s t : σ} {a : α}
    (h : p.run s = (t, some a)) : (p >>= f).run s = (f a).run t := by
  rw [run_bind, h]

lemma run_bind_none {p : Prog σ α} {f : α → Prog σ β} {s t : σ}
    (h : p.run s = (t, none)) : (p >>= f).run s = (t, none) := by
  rw [run_bind, h]

/-- Whatever the program reads, what it returns has the property. -/
def Returns (P : α → Prop) : Prog σ α → Prop
  | .ret a => P a
  | .crash => True
  | .read k => ∀ s, (k s).Returns P
  | .write _ p => p.Returns P

lemma returns_pure {P : α → Prop} {a : α} (h : P a) : (pure a : Prog σ α).Returns P := h

lemma Returns.bind {P : β → Prop} {f : α → Prog σ β} (h : ∀ a, (f a).Returns P)
    (p : Prog σ α) : (p >>= f).Returns P := by
  change (p.bind f).Returns P
  induction p with
  | ret a => exact h a
  | crash => trivial
  | read k ih => exact ih
  | write s p ih => exact ih

lemma Returns.of_run {P : α → Prop} {p : Prog σ α} (h : p.Returns P) {s t : σ} {a : α}
    (hrun : p.run s = (t, some a)) : P a := by
  induction p generalizing s with
  | ret b =>
    cases hrun
    exact h
  | crash => cases hrun
  | read k ih => exact ih s (h s) hrun
  | write s' p ih => exact ih h hrun

/-- The cell after the program has run alone. -/
def exec (p : Prog σ α) (s : σ) : σ := (p.run s).1

@[simp] lemma exec_read (k : σ → Prog σ α) (s : σ) : (read k).exec s = (k s).exec s := rfl
@[simp] lemma exec_write (s t : σ) (p : Prog σ α) : (write t p).exec s = p.exec t := rfl

/-- The program makes no further access. -/
def Halted : Prog σ α → Prop
  | .ret _ => True
  | .crash => True
  | .read _ => False
  | .write _ _ => False

lemma Halted.exec {p : Prog σ α} (h : p.Halted) (s : σ) : p.exec s = s := by
  cases p with
  | ret a => rfl
  | crash => rfl
  | read k => exact h.elim
  | write t p => exact h.elim

end Prog

/-! ### Two programs on one cell -/

inductive Side
  | left | right
  deriving DecidableEq

inductive Kind
  | read | write
  deriving DecidableEq

/-- Who made an access, and what it was. -/
abbrev Access := Side × Kind

/-- The interleavings of two programs started in a cell, with the accesses made in order and
the cell that is left. -/
inductive Interleaves : Prog σ α → Prog σ β → σ → List Access → σ → Prop
  | halt {p : Prog σ α} {q : Prog σ β} {s : σ} (hp : p.Halted) (hq : q.Halted) :
      Interleaves p q s [] s
  | leftRead {k : σ → Prog σ α} {q : Prog σ β} {s t : σ} {tr : List Access}
      (h : Interleaves (k s) q s tr t) :
      Interleaves (.read k) q s ((.left, .read) :: tr) t
  | leftWrite {s' : σ} {p : Prog σ α} {q : Prog σ β} {s t : σ} {tr : List Access}
      (h : Interleaves p q s' tr t) :
      Interleaves (.write s' p) q s ((.left, .write) :: tr) t
  | rightRead {p : Prog σ α} {k : σ → Prog σ β} {s t : σ} {tr : List Access}
      (h : Interleaves p (k s) s tr t) :
      Interleaves p (.read k) s ((.right, .read) :: tr) t
  | rightWrite {p : Prog σ α} {s' : σ} {q : Prog σ β} {s t : σ} {tr : List Access}
      (h : Interleaves p q s' tr t) :
      Interleaves p (.write s' q) s ((.right, .write) :: tr) t

/-- No access of the side `b` comes before an access of the side `a` it conflicts with: two
accesses conflict when one of them is a write. -/
def Before (a b : Side) (tr : List Access) : Prop :=
  tr.Pairwise fun x y => x.1 = b → y.1 = a → x.2 = .read ∧ y.2 = .read

instance (a b : Side) (tr : List Access) : Decidable (Before a b tr) :=
  inferInstanceAs (Decidable (tr.Pairwise _))

/-- The conflicting accesses all come in one order. -/
def ConflictOrdered (tr : List Access) : Prop :=
  Before .left .right tr ∨ Before .right .left tr

variable {p : Prog σ α} {q : Prog σ β} {s t : σ} {tr : List Access}

lemma Interleaves.halted_left (h : Interleaves p q s tr t) (hn : ∀ x ∈ tr, x.1 ≠ .left) :
    p.Halted := by
  induction h with
  | halt hp hq => exact hp
  | leftRead h ih => exact absurd rfl (hn (.left, .read) (by simp))
  | leftWrite h ih => exact absurd rfl (hn (.left, .write) (by simp))
  | rightRead h ih => exact ih fun x hx => hn x (by simp [hx])
  | rightWrite h ih => exact ih fun x hx => hn x (by simp [hx])

lemma Interleaves.exec_left_of_reads (h : Interleaves p q s tr t) (hb : Before .left .right tr)
    (hr : ∀ x ∈ tr, x.1 = .left → x.2 = .read) : p.exec s = s := by
  induction h with
  | halt hp hq => exact hp.exec _
  | leftRead h ih => exact ih (List.Pairwise.of_cons hb) fun x hx => hr x (by simp [hx])
  | leftWrite h ih => exact absurd (hr (.left, .write) (by simp) rfl) (by simp)
  | rightRead h ih => exact ih (List.Pairwise.of_cons hb) fun x hx => hr x (by simp [hx])
  | rightWrite h ih =>
    refine (h.halted_left fun x hx hl => ?_).exec _
    have := (List.rel_of_pairwise_cons hb hx) rfl hl
    simp at this

/-- **Left before right**: if every conflict has the left program first, the interleaving
leaves what the left program and then the right one leave. -/
theorem Interleaves.exec_of_before (h : Interleaves p q s tr t) (hb : Before .left .right tr) :
    t = q.exec (p.exec s) := by
  induction h with
  | halt hp hq => rw [hp.exec, hq.exec]
  | leftRead h ih => exact ih (List.Pairwise.of_cons hb)
  | leftWrite h ih => exact ih (List.Pairwise.of_cons hb)
  | @rightRead p k s t tr h ih =>
    have htail := List.Pairwise.of_cons hb
    have hreads : p.exec s = s := h.exec_left_of_reads htail fun x hx hl =>
      ((List.rel_of_pairwise_cons hb hx) rfl hl).2
    rw [ih htail, hreads, Prog.exec_read]
  | @rightWrite p s' q s t tr h ih =>
    have hp : p.Halted := h.halted_left fun x hx hl => by
      have := (List.rel_of_pairwise_cons hb hx) rfl hl
      simp at this
    rw [ih (List.Pairwise.of_cons hb), hp.exec, hp.exec, Prog.exec_write]

def Side.swap : Side → Side
  | .left => .right
  | .right => .left

lemma Interleaves.swap (h : Interleaves p q s tr t) :
    Interleaves q p s (tr.map fun x => (x.1.swap, x.2)) t := by
  induction h with
  | halt hp hq => exact .halt hq hp
  | leftRead h ih => exact .rightRead ih
  | leftWrite h ih => exact .rightWrite ih
  | rightRead h ih => exact .leftRead ih
  | rightWrite h ih => exact .leftWrite ih

lemma before_swap (h : Before .right .left tr) :
    Before .left .right (tr.map fun x => (x.1.swap, x.2)) := by
  refine List.pairwise_map.mpr (h.imp fun {x y} hxy h1 h2 => hxy ?_ ?_)
  · rcases x with ⟨_ | _, _⟩ <;> simp_all [Side.swap]
  · rcases y with ⟨_ | _, _⟩ <;> simp_all [Side.swap]

/-- **Serializability**: an interleaving whose conflicting accesses all come in one order
leaves what one of the two serial orders leaves. -/
theorem Interleaves.serial (h : Interleaves p q s tr t) (hc : ConflictOrdered tr) :
    t = q.exec (p.exec s) ∨ t = p.exec (q.exec s) := by
  rcases hc with hb | hb
  · exact Or.inl (h.exec_of_before hb)
  · exact Or.inr (h.swap.exec_of_before (before_swap hb))

/-! ### Two updates -/

lemma Interleaves.only_right (h : Interleaves p q s tr t) (hp : p.Halted) :
    ∀ x ∈ tr, x.1 = .right := by
  induction h with
  | halt hp hq => simp
  | leftRead h ih => exact hp.elim
  | leftWrite h ih => exact hp.elim
  | rightRead h ih => simpa using ih hp
  | rightWrite h ih => simpa using ih hp

lemma Interleaves.only_left (h : Interleaves p q s tr t) (hq : q.Halted) :
    ∀ x ∈ tr, x.1 = .left := by
  induction h with
  | halt hp hq => simp
  | leftRead h ih => simpa using ih hq
  | leftWrite h ih => simpa using ih hq
  | rightRead h ih => exact hq.elim
  | rightWrite h ih => exact hq.elim

lemma before_of_forall {a b : Side} (hab : a ≠ b) {l : List Access} (hl : ∀ x ∈ l, x.1 = a)
    {l' : List Access} (hl' : ∀ x ∈ l', x.1 = b) : Before a b (l ++ l') := by
  refine List.pairwise_append.mpr ⟨?_, ?_, ?_⟩
  · refine List.pairwise_iff_forall_sublist.mpr fun {x y} hs hx _ => ?_
    exact absurd ((hl x (hs.subset (by simp))).symm.trans hx) hab
  · refine List.pairwise_iff_forall_sublist.mpr fun {x y} hs _ hy => ?_
    exact absurd ((hl' y (hs.subset (by simp))).symm.trans hy).symm hab
  · exact fun x hx y _ hxb => absurd ((hl x hx).symm.trans hxb) hab

lemma Interleaves.last_right {s' : σ} {b : β} (h : Interleaves p (.write s' (.ret b)) s tr t)
    (hp : p.Halted) : t = s' := by
  cases h with
  | halt _ hq => exact hq.elim
  | leftRead h => exact hp.elim
  | leftWrite h => exact hp.elim
  | rightWrite h =>
    cases h with
    | halt => rfl
    | leftRead h => exact hp.elim
    | leftWrite h => exact hp.elim

lemma Interleaves.last_left {s' : σ} {a : α} (h : Interleaves (.write s' (.ret a)) q s tr t)
    (hq : q.Halted) : t = s' :=
  h.swap.last_right hq

/-- **The last one wins**: two programs that read, write and are done leave what just one of
them has written as soon as neither is done before the other begins. -/
theorem Interleaves.overlap {k₁ : σ → Prog σ α} {k₂ : σ → Prog σ β} {s₁ s₂ : σ} {a : α} {b : β}
    (h₁ : k₁ s = .write s₁ (.ret a)) (h₂ : k₂ s = .write s₂ (.ret b))
    (h : Interleaves (.read k₁) (.read k₂) s tr t) : ConflictOrdered tr ∨ t = s₁ ∨ t = s₂ := by
  cases h with
  | halt hp hq => exact hp.elim
  | leftRead h =>
    rw [h₁] at h
    cases h with
    | halt hp hq => exact hp.elim
    | leftWrite h =>
      exact Or.inl (Or.inl (before_of_forall (by decide)
        (by simp : ∀ x ∈ [(Side.left, Kind.read), (.left, .write)], x.1 = .left)
        (h.only_right trivial)))
    | rightRead h =>
      rw [h₂] at h
      cases h with
      | halt hp hq => exact hp.elim
      | leftWrite h => exact Or.inr (Or.inr (h.last_right trivial))
      | rightWrite h => exact Or.inr (Or.inl (h.last_left trivial))
  | rightRead h =>
    rw [h₂] at h
    cases h with
    | halt hp hq => exact hq.elim
    | rightWrite h =>
      exact Or.inl (Or.inr (before_of_forall (by decide)
        (by simp : ∀ x ∈ [(Side.right, Kind.read), (.right, .write)], x.1 = .right)
        (h.only_left trivial)))
    | leftRead h =>
      rw [h₁] at h
      cases h with
      | halt hp hq => exact hp.elim
      | leftWrite h => exact Or.inr (Or.inr (h.last_right trivial))
      | rightWrite h => exact Or.inr (Or.inl (h.last_left trivial))

/-! ### A program that does not write -/

/-- Whatever the program reads, it does not write. -/
def Prog.Silent : Prog σ α → Prop
  | .ret _ => True
  | .crash => True
  | .read k => ∀ s, (k s).Silent
  | .write _ _ => False

lemma Prog.Silent.exec {p : Prog σ α} (h : p.Silent) (s : σ) : p.exec s = s := by
  induction p generalizing s with
  | ret a => rfl
  | crash => rfl
  | read k ih => exact ih s (h s) s
  | write t p => exact h.elim

lemma Prog.Silent.bind {p : Prog σ α} {f : α → Prog σ β} (h : p.Silent)
    (hf : ∀ a, (f a).Silent) : (p >>= f).Silent := by
  change (p.bind f).Silent
  induction p with
  | ret a => exact hf a
  | crash => trivial
  | read k ih => exact fun s => ih s (h s)
  | write t p => exact h.elim

lemma Prog.silent_ofOption (o : Option α) : (Prog.ofOption o : Prog σ α).Silent := by
  cases o with
  | none => trivial
  | some a => trivial

/-- A program that does not write is not noticed. -/
theorem Interleaves.exec_of_silent (h : Interleaves p q s tr t) (hq : q.Silent) :
    t = p.exec s := by
  induction h with
  | halt hp hq' => exact (hp.exec _).symm
  | leftRead h ih => exact ih hq
  | leftWrite h ih => exact ih hq
  | rightRead h ih => exact ih (hq _)
  | rightWrite h ih => exact hq.elim

/-! ### A write between a read and a write -/

/-- A write of the other side comes between the last read of the side `a` before a write of it
and this write. -/
def Overwrites (a : Side) (tr : List Access) : Prop :=
  ∃ l₁ l₂ l₃, tr = l₁ ++ (a, .read) :: (l₂ ++ (a, .write) :: l₃) ∧
    (a, .read) ∉ l₂ ∧ (a.swap, .write) ∈ l₂

/-- The accesses go on to a write of the side `a` before it reads again, and the other side writes
before that, if it has not yet. -/
def writesOver (a : Side) : Bool → List Access → Bool
  | _, [] => false
  | seen, x :: tr =>
    if x = (a, .read) then false
    else if x = (a, .write) then seen || writesOver a seen tr
    else writesOver a (seen || x = (a.swap, .write)) tr

lemma writesOver_iff {a : Side} {seen : Bool} : writesOver a seen tr ↔
    ∃ l₂ l₃, tr = l₂ ++ (a, .write) :: l₃ ∧ (a, .read) ∉ l₂ ∧ (seen ∨ (a.swap, .write) ∈ l₂) := by
  induction tr generalizing seen with
  | nil => simp [writesOver]
  | cons x tr ih =>
    have hswap : (a.swap, Kind.write) ≠ (a, .write) := by cases a <;> simp [Side.swap]
    have hcons : (∃ l₂ l₃, x :: tr = l₂ ++ (a, .write) :: l₃ ∧ (a, .read) ∉ l₂ ∧
          (seen ∨ (a.swap, .write) ∈ l₂)) ↔
        x = (a, .write) ∧ seen ∨ x ≠ (a, .read) ∧ ∃ l₂ l₃, tr = l₂ ++ (a, .write) :: l₃ ∧
          (a, .read) ∉ l₂ ∧ ((seen || x = (a.swap, .write)) ∨ (a.swap, .write) ∈ l₂) := by
      constructor
      · rintro ⟨_ | ⟨y, l₂⟩, l₃, heq, hread, hseen⟩
        · obtain ⟨rfl, rfl⟩ := List.cons_eq_cons.mp heq
          exact Or.inl ⟨rfl, by simpa using hseen⟩
        · obtain ⟨rfl, rfl⟩ := List.cons_eq_cons.mp heq
          obtain ⟨hx, hread⟩ := not_or.mp (mt List.mem_cons.mpr hread)
          refine Or.inr ⟨Ne.symm hx, l₂, l₃, rfl, hread, ?_⟩
          rcases hseen with hseen | hmem
          · exact Or.inl (by simp [hseen])
          · rcases List.mem_cons.mp hmem with rfl | hmem
            · exact Or.inl (by simp)
            · exact Or.inr hmem
      · rintro (⟨rfl, hseen⟩ | ⟨hx, l₂, l₃, rfl, hread, hseen⟩)
        · exact ⟨[], tr, rfl, by simp, Or.inl hseen⟩
        · refine ⟨x :: l₂, l₃, rfl, by simp [Ne.symm hx, hread], ?_⟩
          rcases hseen with hseen | hmem
          · rcases Bool.or_eq_true_iff.mp hseen with hseen | heq
            · exact Or.inl hseen
            · exact Or.inr (by simp [of_decide_eq_true heq])
          · exact Or.inr (List.mem_cons_of_mem _ hmem)
    rw [hcons]
    unfold writesOver
    split_ifs with hread hwrite
    · simp [hread]
    · subst hwrite
      simp [ih, hswap.symm]
    · simp [hread, hwrite, ih]

/-- Some read of the side `a` is followed that way. -/
def overwrites (a : Side) : List Access → Bool
  | [] => false
  | x :: tr => x = (a, .read) && writesOver a false tr || overwrites a tr

lemma overwrites_iff {a : Side} : overwrites a tr ↔ Overwrites a tr := by
  induction tr with
  | nil => simp [overwrites, Overwrites]
  | cons x tr ih =>
    unfold overwrites
    rw [Bool.or_eq_true, Bool.and_eq_true, ih, decide_eq_true_eq, writesOver_iff]
    constructor
    · rintro (⟨rfl, l₂, l₃, rfl, hread, hwrite⟩ | ho)
      · exact ⟨[], l₂, l₃, rfl, hread, by simpa using hwrite⟩
      · obtain ⟨l₁, l₂, l₃, rfl, hread, hwrite⟩ := ho
        exact ⟨x :: l₁, l₂, l₃, rfl, hread, hwrite⟩
    · rintro ⟨_ | ⟨y, l₁⟩, l₂, l₃, heq, hread, hwrite⟩
      · obtain ⟨rfl, rfl⟩ := List.cons_eq_cons.mp heq
        exact Or.inl ⟨rfl, l₂, l₃, rfl, hread, Or.inr hwrite⟩
      · obtain ⟨rfl, rfl⟩ := List.cons_eq_cons.mp heq
        exact Or.inr ⟨l₁, l₂, l₃, rfl, hread, hwrite⟩

instance (a : Side) (tr : List Access) : Decidable (Overwrites a tr) :=
  decidable_of_iff _ overwrites_iff

lemma Overwrites.cons {a : Side} (h : Overwrites a tr) (x : Access) : Overwrites a (x :: tr) := by
  obtain ⟨l₁, l₂, l₃, rfl, hread, hwrite⟩ := h
  exact ⟨x :: l₁, l₂, l₃, rfl, hread, hwrite⟩

lemma ConflictOrdered.not_overwrites (h : ConflictOrdered tr) (a : Side) : ¬ Overwrites a tr := by
  rintro ⟨l₁, l₂, l₃, rfl, -, hwrite⟩
  have hfst : ∀ {b c : Side}, Before b c (l₁ ++ (a, .read) :: (l₂ ++ (a, .write) :: l₃)) →
      (a = c → a.swap = b → False) ∧ (a.swap = c → a = b → False) := by
    intro b c hb
    obtain ⟨-, hb, -⟩ := List.pairwise_append.mp hb
    obtain ⟨hread, hb⟩ := List.pairwise_cons.mp hb
    obtain ⟨-, -, hb⟩ := List.pairwise_append.mp hb
    refine ⟨fun h1 h2 => ?_, fun h1 h2 => ?_⟩
    · have := hread _ (List.mem_append_left _ hwrite) h1 h2
      simp at this
    · have := hb _ hwrite _ List.mem_cons_self h1 h2
      simp at this
  rcases h with hb | hb
  · obtain ⟨h1, h2⟩ := hfst hb
    cases a with
    | left => exact h2 rfl rfl
    | right => exact h1 rfl rfl
  · obtain ⟨h1, h2⟩ := hfst hb
    cases a with
    | left => exact h1 rfl rfl
    | right => exact h2 rfl rfl

namespace Prog

/-- Make the access that comes next if it is a write. -/
def flush : Prog σ α → σ → Prog σ α × σ
  | .ret a, s => (.ret a, s)
  | .crash, s => (.crash, s)
  | .read k, s => (.read k, s)
  | .write s p, _ => (p, s)

/-- Make the access that comes next, and if it is a read the write that follows it at once. -/
def block : Prog σ α → σ → Prog σ α × σ
  | .ret a, s => (.ret a, s)
  | .crash, s => (.crash, s)
  | .read k, s => (k s).flush s
  | .write s p, _ => (p, s)

@[simp] lemma flush_pure (a : α) (s : σ) : (pure a : Prog σ α).flush s = (pure a, s) := rfl
@[simp] lemma flush_crash (s : σ) : (crash : Prog σ α).flush s = (crash, s) := rfl
@[simp] lemma flush_put (u s : σ) : (put u).flush s = (pure ⟨⟩, u) := rfl

@[simp] lemma flush_put_bind (u s : σ) (f : PUnit → Prog σ α) :
    (put u >>= f).flush s = (f ⟨⟩, u) := rfl

@[simp] lemma block_get_bind {α : Type u} (s : σ) (f : σ → Prog σ α) :
    (get >>= f).block s = (f s).flush s := rfl

@[simp] lemma halted_pure (a : α) : (pure a : Prog σ α).Halted := trivial
@[simp] lemma halted_crash : (crash : Prog σ α).Halted := trivial

lemma exec_flush (p : Prog σ α) (s : σ) : (p.flush s).1.exec (p.flush s).2 = p.exec s := by
  cases p <;> rfl

lemma exec_block (p : Prog σ α) (s : σ) : (p.block s).1.exec (p.block s).2 = p.exec s := by
  cases p with
  | ret a => rfl
  | crash => rfl
  | read k => exact exec_flush (k s) s
  | write t p => rfl

lemma Halted.block {p : Prog σ α} (h : p.Halted) (s : σ) : p.block s = (p, s) := by
  cases p with
  | ret a => rfl
  | crash => rfl
  | read k => exact h.elim
  | write t p => exact h.elim

lemma exec_of_block {p : Prog σ α} {s : σ} (h : (p.block s).1.Halted) :
    p.exec s = (p.block s).2 := by
  rw [← exec_block, h.exec]

end Prog

/-- The interleavings in which no access comes between a read and the write that follows it. -/
inductive Atomic : Prog σ α → Prog σ β → σ → σ → Prop
  | halt {p : Prog σ α} {q : Prog σ β} {s : σ} (hp : p.Halted) (hq : q.Halted) : Atomic p q s s
  | left {p : Prog σ α} {q : Prog σ β} {s t : σ}
      (h : Atomic (p.block s).1 q (p.block s).2 t) : Atomic p q s t
  | right {p : Prog σ α} {q : Prog σ β} {s t : σ}
      (h : Atomic p (q.block s).1 (q.block s).2 t) : Atomic p q s t

lemma Atomic.swap (h : Atomic p q s t) : Atomic q p s t := by
  induction h with
  | halt hp hq => exact .halt hq hp
  | left h ih => exact .right ih
  | right h ih => exact .left ih

/-- The program `p` stands for `p'`, which has read for the write `p` begins with, and is left
to make the accesses `tr`. -/
inductive Reading (a : Side) (tr : List Access) (s : σ) : Prog σ α → Prog σ α → Prop
  | same {p : Prog σ α} (h : ¬ Overwrites a tr) : Reading a tr s p p
  | read {k : σ → Prog σ α} {s' : σ} {p : Prog σ α} (hk : k s = .write s' p)
      (h : ¬ Overwrites a ((a, .read) :: tr)) : Reading a tr s (.write s' p) (.read k)

lemma Interleaves.write_right {s' : σ} (h : Interleaves p (.write s' q) s tr t) :
    ∃ l l', tr = l ++ (.right, .write) :: l' ∧ (.right, .read) ∉ l := by
  generalize hq : Prog.write s' q = q' at h
  induction h with
  | halt hp hq' =>
    subst hq
    exact hq'.elim
  | leftRead h ih =>
    obtain ⟨l, l', rfl, hl⟩ := ih hq
    exact ⟨(.left, .read) :: l, l', rfl, by simpa using hl⟩
  | leftWrite h ih =>
    obtain ⟨l, l', rfl, hl⟩ := ih hq
    exact ⟨(.left, .write) :: l, l', rfl, by simpa using hl⟩
  | rightRead h ih => cases hq
  | rightWrite h ih => exact ⟨[], _, rfl, by simp⟩

lemma Interleaves.write_left {s' : σ} (h : Interleaves (.write s' p) q s tr t) :
    ∃ l l', tr = l ++ (.left, .write) :: l' ∧ (.left, .read) ∉ l := by
  obtain ⟨l, l', heq, hl⟩ := h.swap.write_right
  have hback : ∀ tr : List Access,
      (tr.map fun x => (x.1.swap, x.2)).map (fun x => (x.1.swap, x.2)) = tr := by
    intro tr
    rw [List.map_map]
    refine (List.map_congr_left fun x _ => ?_).trans (List.map_id tr)
    rcases x with ⟨_ | _, _⟩ <;> rfl
  have hmap := congrArg (List.map fun x : Access => (x.1.swap, x.2)) heq
  rw [hback, List.map_append, List.map_cons] at hmap
  refine ⟨_, _, hmap, fun hmem => hl ?_⟩
  obtain ⟨⟨b, c⟩, hx, hbc⟩ := List.mem_map.mp hmem
  cases b <;> cases hbc
  exact hx

lemma Overwrites.read_cons {a : Side} (h : Overwrites a ((a, .read) :: tr)) (x : Access) :
    Overwrites a ((a, .read) :: x :: tr) := by
  by_cases hx : x = (a, .read)
  · subst hx
    exact h.cons _
  · obtain ⟨l₁, l₂, l₃, heq, hread, hwrite⟩ := h
    rcases l₁ with _ | ⟨y, l₁⟩
    · obtain ⟨-, rfl⟩ := List.cons_eq_cons.mp heq
      exact ⟨[], x :: l₂, l₃, rfl, by simpa [Ne.symm hx] using hread, by simp [hwrite]⟩
    · obtain ⟨-, rfl⟩ := List.cons_eq_cons.mp heq
      exact ⟨(a, .read) :: x :: l₁, l₂, l₃, rfl, hread, hwrite⟩

lemma Reading.tail {a : Side} {x : Access} {p p' : Prog σ α} (h : Reading a (x :: tr) s p p') :
    Reading a tr s p p' := by
  cases h with
  | same h => exact .same fun ho => h (ho.cons x)
  | read hk h => exact .read hk fun ho => h (ho.read_cons x)

lemma Reading.start {a : Side} {k : σ → Prog σ α} {p' : Prog σ α}
    (h : Reading a ((a, .read) :: tr) s (.read k) p') :
    p' = .read k ∧ (Reading a tr s (k s) (.read k) ∨
      Reading a tr s (k s) (k s) ∧ (p'.block s) = (k s, s)) := by
  cases h with
  | same h =>
    refine ⟨rfl, ?_⟩
    rcases hk : k s with b | _ | k' | ⟨s', p⟩
    · exact Or.inr ⟨.same fun ho => h (ho.cons _), by simp [Prog.block, Prog.flush, hk]⟩
    · exact Or.inr ⟨.same fun ho => h (ho.cons _), by simp [Prog.block, Prog.flush, hk]⟩
    · exact Or.inr ⟨.same fun ho => h (ho.cons _), by simp [Prog.block, Prog.flush, hk]⟩
    · exact Or.inl (.read hk h)

/-- Whichever way a side has come to its write, its block ends with it. -/
lemma Reading.block_write {a : Side} {s' : σ} {p p' : Prog σ α}
    (h : Reading a ((a, .write) :: tr) s (.write s' p) p') :
    p'.block s = (p, s') ∧ ¬ Overwrites a tr := by
  cases h with
  | same h => exact ⟨rfl, fun ho => h (ho.cons _)⟩
  | read hk h =>
    refine ⟨?_, fun ho => h ((ho.cons _).cons _)⟩
    simp [Prog.block, Prog.flush, hk]

lemma Reading.of_write {a : Side} {p p' : Prog σ α}
    (h : Reading a ((a.swap, .write) :: tr) s p p')
    (hw : ∀ s' p₁, p = .write s' p₁ → ∃ l l', tr = l ++ (a, .write) :: l' ∧ (a, .read) ∉ l)
    (s₁ : σ) : Reading a tr s₁ p p' := by
  cases h with
  | same h => exact .same fun ho => h (ho.cons _)
  | read hk h =>
    obtain ⟨l, l', rfl, hl⟩ := hw _ _ rfl
    refine absurd ⟨[], (a.swap, .write) :: l, l', rfl, ?_, by simp⟩ h
    simpa using hl

/-- **Blocks**: if no write of one side comes between the last read of the other and its write,
the two programs might as well make each write together with the read before it. -/
theorem Interleaves.atomic (h : Interleaves p q s tr t) {p' : Prog σ α} {q' : Prog σ β}
    (hp : Reading .left tr s p p') (hq : Reading .right tr s q q') : Atomic p' q' s t := by
  induction h generalizing p' q' with
  | halt hp' hq' =>
    cases hp with
    | same =>
      cases hq with
      | same => exact .halt hp' hq'
      | read => exact hq'.elim
    | read => exact hp'.elim
  | leftRead h ih =>
    obtain ⟨rfl, hread | ⟨hsame, hblock⟩⟩ := hp.start
    · exact ih hread hq.tail
    · refine .left ?_
      rw [hblock]
      exact ih hsame hq.tail
  | leftWrite h ih =>
    obtain ⟨hblock, hno⟩ := hp.block_write
    refine .left ?_
    rw [hblock]
    refine ih (.same hno) (hq.of_write (fun s' q₁ hq₁ => ?_) _)
    subst hq₁
    exact h.write_right
  | rightRead h ih =>
    obtain ⟨rfl, hread | ⟨hsame, hblock⟩⟩ := hq.start
    · exact ih hp.tail hread
    · refine .right ?_
      rw [hblock]
      exact ih hp.tail hsame
  | rightWrite h ih =>
    obtain ⟨hblock, hno⟩ := hq.block_write
    refine .right ?_
    rw [hblock]
    refine ih (hp.of_write (fun s' p₁ hp₁ => ?_) _) (.same hno)
    subst hp₁
    exact h.write_left

/-! ### Programs of two blocks -/

lemma Atomic.exec_right (h : Atomic p q s t) (hp : p.Halted) : t = q.exec s := by
  induction h with
  | halt hp' hq => exact (hq.exec _).symm
  | left h ih =>
    rw [hp.block] at ih
    exact ih hp
  | right h ih => rw [ih hp, Prog.exec_block]

lemma Atomic.exec_left (h : Atomic p q s t) (hq : q.Halted) : t = p.exec s :=
  h.swap.exec_right hq

lemma Atomic.serial_of_block (h : Atomic p q s t) (hp : (p.block s).1.Halted)
    (hq : (q.block s).1.Halted) : t = q.exec (p.exec s) ∨ t = p.exec (q.exec s) := by
  cases h with
  | halt hp' hq' => exact Or.inl (by rw [hp'.exec, hq'.exec])
  | left h =>
    rw [Prog.exec_of_block hp]
    exact Or.inl (h.exec_right hp)
  | right h =>
    rw [Prog.exec_of_block hq]
    exact Or.inr (h.exec_left hq)

/-- Two programs that run alone for two blocks run one after the other, or each makes its
first block before either makes its second. -/
theorem Atomic.two_blocks (h : Atomic p q s t)
    (hp : ((p.block s).1.block (p.block s).2).1.Halted)
    (hq : ((q.block s).1.block (q.block s).2).1.Halted) :
    t = q.exec (p.exec s) ∨ t = p.exec (q.exec s) ∨
      Atomic (p.block s).1 (q.block (p.block s).2).1 (q.block (p.block s).2).2 t ∨
      Atomic (p.block (q.block s).2).1 (q.block s).1 (p.block (q.block s).2).2 t := by
  cases h with
  | halt hp' hq' => exact Or.inl (by rw [hp'.exec, hq'.exec])
  | left h =>
    cases h with
    | halt hp' hq' => exact Or.inl (by rw [hq'.exec, Prog.exec_of_block hp'])
    | left h =>
      have ht := h.exec_right hp
      rw [← Prog.exec_of_block hp, Prog.exec_block] at ht
      exact Or.inl ht
    | right h => exact Or.inr (Or.inr (Or.inl h))
  | right h =>
    cases h with
    | halt hp' hq' => exact Or.inr (Or.inl (by rw [hp'.exec, Prog.exec_of_block hq']))
    | left h => exact Or.inr (Or.inr (Or.inr h))
    | right h =>
      have ht := h.exec_left hq
      rw [← Prog.exec_of_block hq, Prog.exec_block] at ht
      exact Or.inr (Or.inl ht)

/-! ### A change that is lost -/

lemma Interleaves.after_reads {l : List Access} (hl : ∀ x ∈ l, x.2 = .read)
    (h : Interleaves p q s (l ++ tr) t) :
    ∃ (p' : Prog σ α) (q' : Prog σ β), Interleaves p' q' s tr t ∧ p'.exec s = p.exec s := by
  induction l generalizing p q with
  | nil => exact ⟨p, q, h, rfl⟩
  | cons x l ih =>
    obtain ⟨hx, htail⟩ := List.forall_mem_cons.mp hl
    cases h with
    | leftRead h => simpa using ih htail h
    | leftWrite h => cases hx
    | rightRead h => exact ih htail h
    | rightWrite h => cases hx

lemma Interleaves.after_right {l : List Access} (hl : ∀ x ∈ l, x.1 = .right)
    (h : Interleaves p q s (l ++ tr) t) : ∃ (q' : Prog σ β) (s' : σ), Interleaves p q' s' tr t := by
  induction l generalizing q s with
  | nil => exact ⟨q, s, h⟩
  | cons x l ih =>
    obtain ⟨hx, htail⟩ := List.forall_mem_cons.mp hl
    cases h with
    | leftRead h => cases hx
    | leftWrite h => cases hx
    | rightRead h => exact ih htail h
    | rightWrite h => exact ih htail h

lemma Interleaves.exec_of_reads (h : Interleaves p q s tr t) (hr : ∀ x ∈ tr, x.2 = .read) :
    t = s ∧ p.exec s = s := by
  rw [← List.append_nil tr] at h
  obtain ⟨p', q', h', hp⟩ := h.after_reads hr
  cases h' with
  | halt hp' hq' => exact ⟨rfl, by rw [← hp, hp'.exec]⟩

/-- **Overwritten**: where each side writes once, and one of them what it has read before the
other's write, the cell is left as this one leaves it alone. -/
theorem Interleaves.exec_of_overwrites (h : Interleaves p q s tr t)
    (hl : tr.count (.left, .write) = 1) (hr : tr.count (.right, .write) = 1)
    (ho : Overwrites .left tr) : t = p.exec s := by
  obtain ⟨l₁, l₂, l₃, rfl, hread, hwrite⟩ := ho
  have hpos : 0 < l₂.count (.right, .write) := List.count_pos_iff.mpr hwrite
  have hreads : ∀ l : List Access, l.count (.left, .write) = 0 → l.count (.right, .write) = 0 →
      ∀ x ∈ l, x.2 = .read := by
    rintro l h1 h2 ⟨_ | _, _ | _⟩ hx
    · rfl
    · exact absurd hx (List.count_eq_zero.mp h1)
    · rfl
    · exact absurd hx (List.count_eq_zero.mp h2)
  simp only [List.count_append, List.count_cons, beq_self_eq_true, if_true] at hl hr
  have hright : ∀ x ∈ l₂, x.1 = .right := by
    rintro ⟨_ | _, _ | _⟩ hx
    · exact absurd hx hread
    · have := List.count_pos_iff.mpr hx
      omega
    · rfl
    · rfl
  -- up to the last read of the left side nothing is written
  obtain ⟨p₁, q₁, h₁, hp₁⟩ := h.after_reads (hreads l₁ (by omega) (by omega))
  obtain ⟨p₂, q₂, h₂, hp₂⟩ := Interleaves.after_reads (l := [(.left, .read)]) (by simp) h₁
  -- from there to its write it makes no access
  obtain ⟨q₃, s₃, h₃⟩ := h₂.after_right hright
  cases h₃ with
  | leftWrite h₄ =>
    obtain ⟨ht, hexec⟩ := h₄.exec_of_reads (hreads l₃ (by omega) (by omega))
    rw [ht, ← hp₁, ← hp₂, Prog.exec_write, hexec]

end Hoststack.Cell
