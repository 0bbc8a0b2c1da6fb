import Mathlib
import Interlude.Conversion.Session
import Interlude.Files.Tree

/-!
# Running a conversion step by step

A conversion that runs on a file tree takes a world, that is its session and the files, to a result
and a world, also where it fails. What is composed of parts runs the parts one after the other as
far as they succeed. So a relation between the worlds before and after that holds around each part,
and carries over from one to the next, holds around the whole.
-/

namespace Interlude

/-- What a conversion acts on: its session and the files. -/
structure World where
  session : Session
  files : FileTree

namespace Converting

variable {α β : Type}

/-- Runs a part of a conversion in a world. -/
def exec (x : Converting (StateM FileTree) α) (w : World) : Except ConversionError α × World :=
  let ran : (Except ConversionError α × Session) × FileTree := ((ExceptT.run x).run w.session).run w.files
  (ran.1.1, ⟨ran.1.2, ran.2⟩)

/-! ### Equations -/

/-- Giving a value changes nothing. -/
@[simp] theorem exec_pure (a : α) (w : World) :
    exec (pure a : Converting (StateM FileTree) α) w = (.ok a, w) :=
  rfl

/-- Failing changes nothing. -/
@[simp] theorem exec_throw (e : ConversionError) (w : World) :
    exec (throw e : Converting (StateM FileTree) α) w = (.error e, w) :=
  rfl

/-- The session is at hand. -/
@[simp] theorem exec_get (w : World) :
    exec (get : Converting (StateM FileTree) Session) w = (.ok w.session, w) :=
  rfl

/-- The session can be changed. -/
@[simp] theorem exec_modify (f : Session → Session) (w : World) :
    exec (modify f : Converting (StateM FileTree) Unit) w = (.ok (), ⟨f w.session, w.files⟩) :=
  rfl

/-- An operation on files leaves the session. -/
@[simp] theorem exec_lift (operation : StateM FileTree α) (w : World) :
    exec (liftM operation : Converting (StateM FileTree) α) w =
      (.ok (operation.run w.files).1, ⟨w.session, (operation.run w.files).2⟩) :=
  rfl

/-- The second of two parts runs where the first one has succeeded. -/
theorem exec_bind (x : Converting (StateM FileTree) α) (f : α → Converting (StateM FileTree) β)
    (w : World) :
    exec (x >>= f) w =
      match exec x w with
      | (.ok a, w') => exec (f a) w'
      | (.error e, w') => (.error e, w') := by
  unfold exec
  rw [ExceptT.run_bind, StateT.run_bind, StateT.run_bind]
  rcases ((ExceptT.run x).run w.session).run w.files with ⟨⟨_ | a, s⟩, t⟩
  · rfl
  · rfl

/-- A whole that succeeds has parts that succeed. -/
theorem exists_exec_of_bind {x : Converting (StateM FileTree) α}
    {f : α → Converting (StateM FileTree) β} {w w' : World} {b : β}
    (h : exec (x >>= f) w = (.ok b, w')) :
    ∃ a v, exec x w = (.ok a, v) ∧ exec (f a) v = (.ok b, w') := by
  rw [exec_bind] at h
  rcases hx : exec x w with ⟨_ | a, v⟩
  · rw [hx] at h
    cases (Prod.mk.inj h).1
  · rw [hx] at h
    exact ⟨a, v, rfl, h⟩

/-- Giving a value after a part leaves the world as the part does. -/
theorem world_exec_bind_pure (x : Converting (StateM FileTree) α) (b : β) (w : World) :
    (exec (x >>= fun _ => pure b) w).2 = (exec x w).2 := by
  rw [exec_bind]
  rcases exec x w with ⟨_ | a, v⟩ <;> rfl

/-- A loop runs its part for the first item and then the loop over the others. -/
theorem forIn_cons_yield (a : α) (items : List α) (f : α → Converting (StateM FileTree) Unit) :
    (forIn (a :: items) PUnit.unit fun a _ => do f a; pure (.yield PUnit.unit)) =
      f a >>= fun _ => (forIn items PUnit.unit fun a _ => do f a; pure (.yield PUnit.unit)) := by
  rw [List.forIn_cons, bind_assoc]
  simp only [pure_bind]

/-- An operation on files that is told with a path. -/
theorem exec_onPath (path : String) (operation : StateM FileTree (Except FileFault α)) (w : World) :
    exec (onPath path operation) w =
      ((operation.run w.files).1.mapError (.file path),
        ⟨w.session, (operation.run w.files).2⟩) := by
  unfold onPath
  rw [exec_bind, exec_lift]
  dsimp only
  rcases operation.run w.files with ⟨_ | a, t⟩
  · rfl
  · rfl

/-- An operation on files that is told with a path succeeds where it does. -/
theorem of_exec_onPath {path : String} {operation : StateM FileTree (Except FileFault α)}
    {w v : World} {a : α} (h : exec (onPath path operation) w = (.ok a, v)) :
    (operation.run w.files).1 = .ok a ∧ v = ⟨w.session, (operation.run w.files).2⟩ := by
  rw [exec_onPath] at h
  obtain ⟨hresult, hworld⟩ := Prod.mk.inj h
  refine ⟨?_, hworld.symm⟩
  cases hrun : (operation.run w.files).1 with
  | error e =>
    rw [hrun] at hresult
    cases hresult
  | ok b =>
    rw [hrun] at hresult
    rw [Except.ok.inj hresult]

/-! ### What a part keeps -/

/-- A relation holds between the world before a part of a conversion and the world after it. -/
def Keeps (R : World → World → Prop) (x : Converting (StateM FileTree) α) : Prop :=
  ∀ w, R w (exec x w).2

/-- What a part keeps is kept by a run of it. -/
theorem Keeps.of_exec {R : World → World → Prop} {x : Converting (StateM FileTree) α} {w v : World}
    {result : Except ConversionError α} (hx : Keeps R x) (h : exec x w = (result, v)) : R w v := by
  have hrun := hx w
  rwa [h] at hrun

/-- What a part keeps it keeps for a weaker relation. -/
theorem Keeps.mono {R S : World → World → Prop} {x : Converting (StateM FileTree) α} (hx : Keeps R x)
    (h : ∀ {w v}, R w v → S w v) : Keeps S x :=
  fun w => h (hx w)

section Keeps

variable {R : World → World → Prop} [IsPreorder World R]

/-- A value keeps everything. -/
theorem keeps_pure (a : α) : Keeps R (pure a : Converting (StateM FileTree) α) :=
  fun w => refl_of R w

/-- Looking at the session keeps everything. -/
theorem keeps_get : Keeps R (get : Converting (StateM FileTree) Session) :=
  fun w => refl_of R w

/-- What is kept by a first part, and by the second one after a success of the first, is kept by
both. -/
theorem keeps_bind_of_exec {x : Converting (StateM FileTree) α}
    {f : α → Converting (StateM FileTree) β} (hx : Keeps R x)
    (hf : ∀ w a v, exec x w = (.ok a, v) → R v (exec (f a) v).2) : Keeps R (x >>= f) := by
  intro w
  rw [exec_bind]
  rcases hexec : exec x w with ⟨_ | a, v⟩
  · exact hx.of_exec hexec
  · exact trans_of R (hx.of_exec hexec) (hf w a v hexec)

/-- What two parts keep is kept by one after the other. -/
theorem keeps_bind {x : Converting (StateM FileTree) α} {f : α → Converting (StateM FileTree) β}
    (hx : Keeps R x) (hf : ∀ a, Keeps R (f a)) : Keeps R (x >>= f) :=
  keeps_bind_of_exec hx fun _ a v _ => hf a v

/-- What the part for each item keeps is kept by a loop over the items. -/
theorem keeps_forIn {items : List α} {f : α → β → Converting (StateM FileTree) (ForInStep β)}
    (hf : ∀ a ∈ items, ∀ b, Keeps R (f a b)) (b : β) : Keeps R (forIn items b f) := by
  induction items generalizing b with
  | nil => exact keeps_pure b
  | cons a items ih =>
    rw [List.forIn_cons]
    refine keeps_bind (hf a List.mem_cons_self b) ?_
    intro step
    cases step with
    | done b => exact keeps_pure b
    | yield b => exact ih (fun c hc => hf c (List.mem_cons_of_mem a hc)) b

/-- What the part for each item keeps is kept by the parts for all of them. -/
theorem keeps_mapM {items : List α} {f : α → Converting (StateM FileTree) β}
    (hf : ∀ a ∈ items, Keeps R (f a)) : Keeps R (items.mapM f) := by
  induction items with
  | nil => exact keeps_pure []
  | cons a items ih =>
    rw [List.mapM_cons]
    refine keeps_bind (hf a List.mem_cons_self) ?_
    intro b
    refine keeps_bind (ih fun c hc => hf c (List.mem_cons_of_mem a hc)) ?_
    intro bs
    exact keeps_pure (b :: bs)

/-- A relation holds between the world before a part of a conversion and the world after it wherever
the part succeeds. -/
def Meets (R : World → World → Prop) (x : Converting (StateM FileTree) α) : Prop :=
  ∀ w a v, exec x w = (.ok a, v) → R w v

omit [IsPreorder World R] in
/-- What a part keeps in any case it keeps where it succeeds. -/
theorem Keeps.meets {x : Converting (StateM FileTree) α} (h : Keeps R x) : Meets R x :=
  fun _ _ _ hexec => h.of_exec hexec

/-- What two parts keep where they succeed is kept by one after the other where both succeed. -/
theorem meets_bind {x : Converting (StateM FileTree) α} {f : α → Converting (StateM FileTree) β}
    (hx : Meets R x) (hf : ∀ a, Meets R (f a)) : Meets R (x >>= f) := by
  intro w b v h
  obtain ⟨a, u, hfirst, hsecond⟩ := exists_exec_of_bind h
  exact trans_of R (hx w a u hfirst) (hf a u b v hsecond)

/-- What the part for each item keeps where it succeeds is kept by a loop that succeeds. -/
theorem meets_forIn {items : List α} {f : α → β → Converting (StateM FileTree) (ForInStep β)}
    (hf : ∀ a ∈ items, ∀ b, Meets R (f a b)) (b : β) : Meets R (forIn items b f) := by
  induction items generalizing b with
  | nil => exact (keeps_pure b).meets
  | cons a items ih =>
    rw [List.forIn_cons]
    refine meets_bind (hf a List.mem_cons_self b) ?_
    intro step
    cases step with
    | done b => exact (keeps_pure b).meets
    | yield b => exact ih (fun c hc => hf c (List.mem_cons_of_mem a hc)) b

/-- A loop that succeeds has run its part for each item, and kept around it what the parts keep. -/
theorem exists_exec_of_forIn {items : List α} {f : α → Converting (StateM FileTree) Unit}
    {w v : World} (hf : ∀ a ∈ items, Meets R (f a))
    (h : exec (forIn items PUnit.unit fun a _ => do f a; pure (.yield PUnit.unit)) w = (.ok (), v)) :
    ∀ a ∈ items, ∃ w₁ v₁, exec (f a) w₁ = (.ok (), v₁) ∧ R w w₁ ∧ R v₁ v := by
  induction items generalizing w with
  | nil => exact fun a ha => absurd ha List.not_mem_nil
  | cons a items ih =>
    rw [List.forIn_cons] at h
    obtain ⟨step, v₁, hstep, h⟩ := exists_exec_of_bind h
    obtain ⟨_, v₂, ha, hpure⟩ := exists_exec_of_bind hstep
    rw [exec_pure] at hpure
    obtain ⟨hyield, rfl⟩ := Prod.mk.inj hpure
    obtain rfl := Except.ok.inj hyield
    dsimp only at h
    have hrest : ∀ c ∈ items, Meets R (f c) := fun c hc => hf c (List.mem_cons_of_mem a hc)
    have hfirst : R w v₂ := hf a List.mem_cons_self w () v₂ ha
    have hloop : R v₂ v :=
      meets_forIn (fun c hc _ => meets_bind (hrest c hc) fun _ => (keeps_pure _).meets) _ _ _ _ h
    intro c hc
    rcases List.mem_cons.mp hc with rfl | hc
    · exact ⟨w, v₂, ha, refl_of R w, hloop⟩
    · obtain ⟨w₁, v₁, hexec, hbefore, hafter⟩ := ih hrest h c hc
      exact ⟨w₁, v₁, hexec, trans_of R hfirst hbefore, hafter⟩

/-- Results of parts for items come one for each item, each from a success of its part, and around it
is kept what the parts keep. -/
theorem forall₂_of_exec_mapM {items : List α} {f : α → Converting (StateM FileTree) β} {w v : World}
    {bs : List β} (hf : ∀ a ∈ items, Keeps R (f a)) (h : exec (items.mapM f) w = (.ok bs, v)) :
    List.Forall₂ (fun a b => ∃ w₁ v₁, exec (f a) w₁ = (.ok b, v₁) ∧ R w w₁ ∧ R v₁ v) items bs := by
  induction items generalizing w bs with
  | nil =>
    obtain rfl := Except.ok.inj (Prod.mk.inj h).1
    exact List.Forall₂.nil
  | cons a items ih =>
    rw [List.mapM_cons] at h
    obtain ⟨b, w₁, hb, h⟩ := exists_exec_of_bind h
    obtain ⟨rest, w₂, hrest, h⟩ := exists_exec_of_bind h
    rw [exec_pure] at h
    obtain ⟨hbs, rfl⟩ := Prod.mk.inj h
    obtain rfl := Except.ok.inj hbs
    have htail : ∀ c ∈ items, Keeps R (f c) := fun c hc => hf c (List.mem_cons_of_mem a hc)
    have hfirst : R w w₁ := (hf a List.mem_cons_self).of_exec hb
    refine List.Forall₂.cons ⟨w, w₁, hb, refl_of R w, (keeps_mapM htail).of_exec hrest⟩ ?_
    refine (ih htail hrest).imp ?_
    rintro c d ⟨u, v₁, hexec, hbefore, hafter⟩
    exact ⟨u, v₁, hexec, trans_of R hfirst hbefore, hafter⟩

end Keeps

end Converting

end Interlude
