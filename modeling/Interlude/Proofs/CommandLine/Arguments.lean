import Mathlib
import Interlude.CommandLine.Request
import Interlude.Proofs.Settings.Tables
import Interlude.Proofs.Text.Cutting

/-!
# Giving a request as arguments

A request for a conversion can be given as arguments: each value behind the name of its option and an equals sign, and
the archive behind two dashes, so that nothing is mistaken for an option. What is read from these arguments is the
request.
-/

namespace Interlude.CommandLine

variable {name : String} {value : Option String} {flags : List Flag} {gs : List Given}

/-! ### Reading arguments -/

/-- An option as one argument, with its value attached. -/
def Given.argument : Given → String
  | .flag name none => "--" ++ name
  | .flag name (some value) => "--" ++ name ++ "=" ++ value
  | .operand value => value

/-- An option that a command takes, with a value if it takes one. -/
def Given.IsTaken (flags : List Flag) : Given → Prop
  | .flag name value => name ≠ "" ∧ '=' ∉ name.toList ∧
      ∃ f, flags.find? (fun f => f.name = name) = some f ∧ f.name = name ∧ f.takesValue = value.isSome
  | .operand _ => False

/-- A name is read up to the equals sign, if there is one. -/
theorem splitValue_name (h : '=' ∉ name.toList) : splitValue name.toList = (name.toList, none) := by
  rw [splitValue, Text.dropWhile_ne_of_not_mem h]

theorem splitValue_value (h : '=' ∉ name.toList) (value : String) :
    splitValue (name.toList ++ '=' :: value.toList) = (name.toList, some value) := by
  rw [splitValue, Text.dropWhile_ne_append h, Text.takeWhile_ne_append h]
  simp only [String.ofList_toList]

/-- An option that is taken is read, and then what follows it. -/
theorem readArguments_argument {g : Given} (hg : g.IsTaken flags) (rest : List String) :
    readArguments flags none (g.argument :: rest) = (readArguments flags none rest).map (g :: ·) := by
  cases g with
  | operand => exact hg.elim
  | flag name value =>
    obtain ⟨hname, hsign, f, hfind, rfl, htakes⟩ := hg
    obtain ⟨c, cs, hchars⟩ := List.exists_cons_of_ne_nil (mt String.toList_eq_nil_iff.mp hname)
    have hread : ∃ s, (Given.flag f.name value).argument.toList = '-' :: '-' :: s ∧ s ≠ [] ∧
        longName flags s = some ([.flag f.name value], none) := by
      cases value with
      | none =>
        refine ⟨f.name.toList, by simp [Given.argument], by simp [hchars], ?_⟩
        simp [longName, splitValue_name hsign, hfind, htakes]
      | some value =>
        refine ⟨f.name.toList ++ '=' :: value.toList, by simp [Given.argument], by simp, ?_⟩
        simp [longName, splitValue_value hsign, hfind, htakes]
    obtain ⟨s, hs, hne, hlong⟩ := hread
    have hdashes : (Given.flag f.name value).argument ≠ "--" := by
      intro heq
      rw [heq] at hs
      exact hne (by simpa using hs.symm)
    rw [readArguments, if_neg hdashes, hs]
    simp only [hlong, Option.bind_eq_bind, Option.bind_some]
    cases readArguments flags none rest <;> rfl

/-- Options that are taken are read one after the other, and then the operands. -/
theorem readArguments_append (h : ∀ g ∈ gs, g.IsTaken flags) (operands : List String) :
    readArguments flags none (gs.map Given.argument ++ "--" :: operands) =
      some (gs ++ operands.map .operand) := by
  induction gs with
  | nil => simp [readArguments]
  | cons g gs ih =>
    obtain ⟨hg, hgs⟩ := List.forall_mem_cons.mp h
    rw [List.map_cons, List.cons_append, readArguments_argument hg, ih hgs, Option.map_some, List.cons_append]

/-! ### Parts of what is given -/

/-- An option with a value, if there is a value. -/
def optional (name : String) (value? : Option String) : List Given :=
  value?.toList.map fun value => .flag name (some value)

/-- An option without a value, if it is on. -/
def switched (name : String) (on : Bool) : List Given :=
  if on then [.flag name none] else []

@[simp] theorem valueOf?_append (a b : List Given) (name : String) :
    valueOf? (a ++ b) name = (valueOf? a name).or (valueOf? b name) :=
  List.findSome?_append

@[simp] theorem valueOf?_optional (name other : String) (value? : Option String) :
    valueOf? (optional name value?) other = if name = other then value? else none := by
  cases value? with
  | none => simp [optional, valueOf?]
  | some value => simp [optional, valueOf?]

@[simp] theorem valueOf?_switched (name other : String) (on : Bool) : valueOf? (switched name on) other = none := by
  cases on <;> simp [switched, valueOf?]

@[simp] theorem valueOf?_operands (values : List String) (name : String) :
    valueOf? (values.map .operand) name = none := by
  simp [valueOf?]

@[simp] theorem isGiven_append (a b : List Given) (name : String) :
    isGiven (a ++ b) name = (isGiven a name || isGiven b name) :=
  List.any_append

@[simp] theorem isGiven_optional (name other : String) (value? : Option String) :
    isGiven (optional name value?) other = (name == other && value?.isSome) := by
  cases value? <;> simp [optional, isGiven]

@[simp] theorem isGiven_switched (name other : String) (on : Bool) :
    isGiven (switched name on) other = (name == other && on) := by
  cases on <;> simp [switched, isGiven]

@[simp] theorem isGiven_operands (values : List String) (name : String) :
    isGiven (values.map .operand) name = false := by
  simp [isGiven]

@[simp] theorem operands_append (a b : List Given) : operands (a ++ b) = operands a ++ operands b :=
  List.filterMap_append

@[simp] theorem operands_optional (name : String) (value? : Option String) : operands (optional name value?) = [] := by
  cases value? <;> rfl

@[simp] theorem operands_switched (name : String) (on : Bool) : operands (switched name on) = [] := by
  cases on <;> rfl

@[simp] theorem operands_operands (values : List String) : operands (values.map .operand) = values := by
  simp [operands, List.filterMap_map]

/-- The name of an option that is given. -/
def Given.name? : Given → Option String
  | .flag name _ => some name
  | .operand _ => none

theorem countP_isGiven (gs : List Given) (name : String) :
    gs.countP (fun g => isGiven [g] name) = (gs.filterMap Given.name?).count name := by
  induction gs with
  | nil => rfl
  | cons g gs ih =>
    rw [List.countP_cons, ih]
    cases g with
    | flag => simp [Given.name?, isGiven, List.count_cons]
    | operand => simp [List.filterMap_cons, Given.name?, isGiven]

/-- Nothing is given twice where all names differ. -/
theorem areUnrepeated_of_nodup (h : (gs.filterMap Given.name?).Nodup) (flags : List Flag) :
    areUnrepeated flags gs = true := by
  refine List.all_eq_true.mpr fun f _ => ?_
  rw [countP_isGiven, Bool.or_eq_true, decide_eq_true_eq]
  exact Or.inr (List.nodup_iff_count_le_one.mp h f.name)

theorem filterMap_name?_optional_sublist (name : String) (value? : Option String) :
    ((optional name value?).filterMap Given.name?).Sublist [name] := by
  cases value? with
  | none => exact List.nil_sublist _
  | some value => exact List.Sublist.refl _

theorem filterMap_name?_switched_sublist (name : String) (on : Bool) :
    ((switched name on).filterMap Given.name?).Sublist [name] := by
  cases on with
  | false => exact List.nil_sublist _
  | true => exact List.Sublist.refl _

/-! ### Requests for conversions -/

namespace ConvertRequest

variable {r : ConvertRequest}

/-- What a request gives, apart from the archive. -/
def given (r : ConvertRequest) : List Given :=
  optional "config" r.config ++ optional "out" r.output ++ optional "title" r.title ++ optional "author" r.author ++
    optional "porter" r.porter ++ optional "music" r.music ++ optional "mapinfo-lump" r.mapLump ++
    optional "ordinal-order" (r.order.map OrdinalOrder.word) ++ optional "palette" r.palette ++
    switched "no-graphics" r.noGraphics ++ switched "cache" r.cache

/-- The arguments that give a request. -/
def arguments (r : ConvertRequest) : List String :=
  "convert" :: (r.given.map Given.argument ++ "--" :: r.archive.toList)

/-- No path of a request is empty. -/
def HasPaths (r : ConvertRequest) : Prop :=
  r.archive ≠ some "" ∧ r.config ≠ some "" ∧ r.output ≠ some "" ∧ r.palette ≠ some ""

instance (r : ConvertRequest) : Decidable r.HasPaths :=
  inferInstanceAs (Decidable (_ ∧ _))

theorem isTaken_of_mem_optional {value? : Option String} {g : Given} (h : g ∈ optional name value?)
    (hname : name ≠ "" ∧ '=' ∉ name.toList ∧
      ∃ f, flags.find? (fun f => f.name = name) = some f ∧ f.name = name ∧ f.takesValue = true) :
    g.IsTaken flags := by
  obtain ⟨value, -, rfl⟩ := List.mem_map.mp h
  exact hname

theorem isTaken_of_mem_switched {on : Bool} {g : Given} (h : g ∈ switched name on)
    (hname : name ≠ "" ∧ '=' ∉ name.toList ∧
      ∃ f, flags.find? (fun f => f.name = name) = some f ∧ f.name = name ∧ f.takesValue = false) :
    g.IsTaken flags := by
  cases on with
  | false => contradiction
  | true =>
    obtain rfl := List.mem_singleton.mp h
    exact hname

/-- A conversion takes all that a request gives. -/
theorem isTaken_of_mem_given {g : Given} (h : g ∈ r.given) : g.IsTaken convertFlags := by
  simp only [given, List.mem_append] at h
  rcases h with (((((((((h | h) | h) | h) | h) | h) | h) | h) | h) | h) | h
  · exact isTaken_of_mem_optional h ⟨by decide, by decide, _, rfl, rfl, rfl⟩
  · exact isTaken_of_mem_optional h ⟨by decide, by decide, _, rfl, rfl, rfl⟩
  · exact isTaken_of_mem_optional h ⟨by decide, by decide, _, rfl, rfl, rfl⟩
  · exact isTaken_of_mem_optional h ⟨by decide, by decide, _, rfl, rfl, rfl⟩
  · exact isTaken_of_mem_optional h ⟨by decide, by decide, _, rfl, rfl, rfl⟩
  · exact isTaken_of_mem_optional h ⟨by decide, by decide, _, rfl, rfl, rfl⟩
  · exact isTaken_of_mem_optional h ⟨by decide, by decide, _, rfl, rfl, rfl⟩
  · exact isTaken_of_mem_optional h ⟨by decide, by decide, _, rfl, rfl, rfl⟩
  · exact isTaken_of_mem_optional h ⟨by decide, by decide, _, rfl, rfl, rfl⟩
  · exact isTaken_of_mem_switched h ⟨by decide, by decide, _, rfl, rfl, rfl⟩
  · exact isTaken_of_mem_switched h ⟨by decide, by decide, _, rfl, rfl, rfl⟩

theorem path?_of_ne (h : value ≠ some "") : path? value = some value :=
  if_neg h

theorem order?_word (order? : Option OrdinalOrder) :
    CommandLine.order? (order?.map OrdinalOrder.word) = some order? := by
  rcases order? with _ | _ | _ <;> rfl

/-- What a request gives makes the request. -/
theorem convertOf?_given (h : r.HasPaths) :
    convertOf? (r.given ++ r.archive.toList.map .operand) = some (.convert r) := by
  obtain ⟨harchive, hconfig, houtput, hpalette⟩ := h
  have hoperand : operand? (r.given ++ r.archive.toList.map .operand) = some r.archive := by
    have hoperands : operands (r.given ++ r.archive.toList.map .operand) = r.archive.toList := by simp [given]
    rw [operand?, hoperands]
    cases hvalue : r.archive with
    | none => rfl
    | some archive => exact path?_of_ne (hvalue ▸ harchive)
  rw [convertOf?, hoperand]
  simp [given, path?_of_ne hconfig, path?_of_ne houtput, path?_of_ne hpalette, order?_word]

/-- Nothing is given twice. -/
theorem areUnrepeated_given : areUnrepeated convertFlags (r.given ++ r.archive.toList.map .operand) = true := by
  have hoperand : (r.archive.toList.map Given.operand).filterMap Given.name? = [] := by
    cases r.archive <;> rfl
  have hnames : (r.given.filterMap Given.name?).Sublist
      (["config"] ++ ["out"] ++ ["title"] ++ ["author"] ++ ["porter"] ++ ["music"] ++ ["mapinfo-lump"] ++
        ["ordinal-order"] ++ ["palette"] ++ ["no-graphics"] ++ ["cache"]) := by
    have hvalued := filterMap_name?_optional_sublist
    have hswitched := filterMap_name?_switched_sublist
    simp only [given, List.filterMap_append]
    exact ((((((((((hvalued _ _).append (hvalued _ _)).append (hvalued _ _)).append (hvalued _ _)).append
      (hvalued _ _)).append (hvalued _ _)).append (hvalued _ _)).append (hvalued _ _)).append (hvalued _ _)).append
      (hswitched _ _)).append (hswitched _ _)
  refine areUnrepeated_of_nodup ?_ convertFlags
  rw [List.filterMap_append, hoperand, List.append_nil]
  exact hnames.nodup (by simp)

/-- The arguments that give a request are read as the request. -/
theorem ofArguments?_arguments (h : r.HasPaths) : Request.ofArguments? r.arguments = some (.convert r) := by
  have hread := readArguments_append (fun g hg => isTaken_of_mem_given (r := r) hg) r.archive.toList
  have hhelp : isGiven (r.given ++ r.archive.toList.map .operand) "help" = false := by simp [given]
  have hcommand : commandOf? convertFlags convertOf? (r.given.map Given.argument ++ "--" :: r.archive.toList) =
      some (.convert r) := by
    rw [commandOf?, hread]
    simp only [Option.bind_eq_bind, Option.bind_some, hhelp, areUnrepeated_given, convertOf?_given h]
    rfl
  exact hcommand

end ConvertRequest

end Interlude.CommandLine
