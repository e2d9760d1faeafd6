import SqlFragment.Document.Level
import SqlFragment.Proofs.Build.Rules
import SqlFragment.Proofs.Document.Reading

/-!
# Reading expressions

An expression is read from exactly the documents that represent it. Soundness goes level by level,
completeness by recursion on the representation. Main statements: `decode_eq_ok_iff`, and that what
is read keeps the rules of construction at every depth (`wellBuilt_of_represents`).
-/

namespace SqlFragment

open Document Calendar

namespace Expr

theorem built_eq_ok_iff {x : Except ConstructionError Expr} {e : Expr} :
    built x = .ok e ↔ x = .ok e := by
  cases x with
  | error cause =>
    constructor
    · intro h
      cases h
    · intro h
      cases h
  | ok other =>
    constructor
    · intro h
      cases h
      rfl
    · intro h
      cases h
      rfl

theorem builtCall_eq_ok_iff {name : String} {arguments : List Expr} {distinct : Bool}
    {output : Option String} {e : Expr} :
    builtCall name arguments distinct output = .ok e ↔
      (∃ c ∈ name.toList, Text.isBlank c = false) ∧ e = call name arguments distinct output := by
  constructor
  · intro h
    obtain ⟨plain, made, h⟩ := bind_eq_ok_iff.mp h
    obtain ⟨visible, rfl⟩ := callOf_eq_ok_iff.mp (built_eq_ok_iff.mp made)
    obtain rfl := pure_eq_ok_iff.mp h
    refine ⟨visible, ?_⟩
    cases output <;> rfl
  · rintro ⟨visible, rfl⟩
    have made : built (callOf name arguments) = .ok (call name arguments false none) :=
      built_eq_ok_iff.mpr (callOf_eq_ok_iff.mpr ⟨visible, rfl⟩)
    refine bind_eq_ok_iff.mpr ⟨_, made, ?_⟩
    cases output <;> rfl

theorem variantOf_tag {name : String} {kind : Kind} :
    variantOf Kind.all Kind.tag name = .ok kind ↔ name = kind.tag := by
  refine variantOf_eq_ok_iff ?_ ?_
  · intro kind
    cases kind <;> decide
  · intro kind other
    cases kind <;> cases other <;> decide

/-! ### Soundness, one level at a time -/

section Sound

variable {child : Reader Expr}
  (sound : ∀ {d e}, child d = .ok e → Represents .loose d e) {c : Document} {e : Expr}

include sound in
theorem representsAll_of_forall₂ {ds : List Document} {es : List Expr}
    (taken : List.Forall₂ (fun d e => child d = .ok e) ds es) : RepresentsAll .loose ds es := by
  induction taken with
  | nil => exact .nil
  | cons first _ ih => exact .cons (sound first) ih

theorem readTarget_eq_ok_iff {target : Option Attribute} :
    readOptional Attribute.decode c = .ok target ↔ OptionForm AttributeForm c target := by
  refine readOptional_eq_ok_iff (fun d a => ?_) attributeForm_null
  exact Attribute.decode_eq_ok_iff

theorem readOutput_eq_ok_iff {output : Option String} :
    readOptional readString c = .ok output ↔ OptionForm StringForm c output := by
  refine readOptional_eq_ok_iff (fun d s => ?_) stringForm_null
  exact readString_eq_ok_iff

theorem join_eq_getD {α : Type} (value : Option (Option α)) : value.join = value.getD none := by
  cases value <;> rfl

theorem readLiteral_sound (h : readLiteral c = .ok e) :
    Represents .loose (object [("Literal", c)]) e := by
  cases c with
  | object fields =>
    obtain ⟨target, targetTaken, h⟩ := bind_eq_ok_iff.mp h
    obtain ⟨value, valueTaken, h⟩ := bind_eq_ok_iff.mp h
    obtain ⟨v, there, h⟩ := bind_eq_ok_iff.mp h
    obtain rfl := pure_eq_ok_iff.mp h
    obtain ⟨d, found, taken⟩ := exists_of_required valueTaken there
    refine .literalObject found (Value.decode_eq_ok_iff.mp taken) ?_
    exact (field?_fieldOr fun _ _ => readTarget_eq_ok_iff).mpr
      ⟨target, targetTaken, (join_eq_getD target).symm⟩
  | array items =>
    obtain ⟨⟨v, rest⟩, first, h⟩ := bind_eq_ok_iff.mp h
    obtain ⟨⟨target, last⟩, second, h⟩ := bind_eq_ok_iff.mp h
    obtain ⟨_, done, h⟩ := bind_eq_ok_iff.mp h
    obtain rfl := pure_eq_ok_iff.mp h
    obtain ⟨d, rfl, valueTaken⟩ := nextItem_eq_ok_iff.mp first
    obtain ⟨a, rfl, targetTaken⟩ := nextItem_eq_ok_iff.mp second
    obtain rfl := noMoreItems_eq_ok_iff.mp done
    exact .literalArray (Value.decode_eq_ok_iff.mp valueTaken) (readTarget_eq_ok_iff.mp targetTaken)
  | _ => cases h

include sound

theorem readArithmetic_sound (h : readArithmetic child c = .ok e) :
    Represents .loose (object [("Infix", c)]) e := by
  cases c with
  | object fields =>
    obtain ⟨left, leftTaken, h⟩ := bind_eq_ok_iff.mp h
    obtain ⟨op, opTaken, h⟩ := bind_eq_ok_iff.mp h
    obtain ⟨right, rightTaken, h⟩ := bind_eq_ok_iff.mp h
    obtain ⟨o, opThere, h⟩ := bind_eq_ok_iff.mp h
    obtain ⟨l, leftThere, h⟩ := bind_eq_ok_iff.mp h
    obtain ⟨r, rightThere, h⟩ := bind_eq_ok_iff.mp h
    obtain rfl := pure_eq_ok_iff.mp h
    obtain ⟨d, opFound, unit⟩ := exists_of_required opTaken opThere
    obtain ⟨m, leftFound, first⟩ := exists_of_required leftTaken leftThere
    obtain ⟨n, rightFound, second⟩ := exists_of_required rightTaken rightThere
    exact .arithmeticObject opFound (Operator.decode_eq_ok_iff.mp unit) leftFound (sound first)
      rightFound (sound second)
  | array items =>
    obtain ⟨⟨op, rest⟩, first, h⟩ := bind_eq_ok_iff.mp h
    obtain ⟨⟨l, last⟩, second, h⟩ := bind_eq_ok_iff.mp h
    obtain ⟨⟨r, none⟩, third, h⟩ := bind_eq_ok_iff.mp h
    obtain ⟨_, done, h⟩ := bind_eq_ok_iff.mp h
    obtain rfl := pure_eq_ok_iff.mp h
    obtain ⟨d, rfl, unit⟩ := nextItem_eq_ok_iff.mp first
    obtain ⟨m, rfl, left⟩ := nextItem_eq_ok_iff.mp second
    obtain ⟨n, rfl, right⟩ := nextItem_eq_ok_iff.mp third
    obtain rfl := noMoreItems_eq_ok_iff.mp done
    exact .arithmeticArray (Operator.decode_eq_ok_iff.mp unit) (sound left) (sound right)
  | _ => cases h

theorem readCall_sound (h : readCall child c = .ok e) :
    Represents .loose (object [("Function", c)]) e := by
  cases c with
  | object fields =>
    obtain ⟨output, outputTaken, h⟩ := bind_eq_ok_iff.mp h
    obtain ⟨arguments, argumentsTaken, h⟩ := bind_eq_ok_iff.mp h
    obtain ⟨distinct, distinctTaken, h⟩ := bind_eq_ok_iff.mp h
    obtain ⟨name, nameTaken, h⟩ := bind_eq_ok_iff.mp h
    obtain ⟨word, nameThere, h⟩ := bind_eq_ok_iff.mp h
    obtain ⟨es, argumentsThere, h⟩ := bind_eq_ok_iff.mp h
    obtain ⟨visible, rfl⟩ := builtCall_eq_ok_iff.mp h
    obtain ⟨d, nameFound, nameRead⟩ := exists_of_required nameTaken nameThere
    obtain rfl := readString_eq_ok_iff.mp nameRead
    obtain ⟨d, found, argumentsRead⟩ := exists_of_required argumentsTaken argumentsThere
    obtain ⟨items, rfl, each⟩ := readAll_eq_ok_iff.mp argumentsRead
    refine .callObject nameFound visible found (representsAll_of_forall₂ sound each) ?_ ?_
    · exact (field?_fieldOr fun _ _ => readBool_eq_ok_iff).mpr ⟨distinct, distinctTaken, rfl⟩
    · exact (field?_fieldOr fun _ _ => readOutput_eq_ok_iff).mpr
        ⟨output, outputTaken, (join_eq_getD output).symm⟩
  | array items =>
    obtain ⟨⟨name, others⟩, first, h⟩ := bind_eq_ok_iff.mp h
    obtain ⟨⟨arguments, tail⟩, second, h⟩ := bind_eq_ok_iff.mp h
    obtain ⟨⟨distinct, last⟩, third, h⟩ := bind_eq_ok_iff.mp h
    obtain ⟨⟨output, rest⟩, fourth, h⟩ := bind_eq_ok_iff.mp h
    obtain ⟨_, done, h⟩ := bind_eq_ok_iff.mp h
    obtain ⟨visible, rfl⟩ := builtCall_eq_ok_iff.mp h
    obtain ⟨d, rfl, nameRead⟩ := nextItem_eq_ok_iff.mp first
    obtain rfl := readString_eq_ok_iff.mp nameRead
    obtain ⟨d, rfl, argumentsRead⟩ := nextItem_eq_ok_iff.mp second
    obtain ⟨ds, rfl, each⟩ := readAll_eq_ok_iff.mp argumentsRead
    obtain rfl := noMoreItems_eq_ok_iff.mp done
    refine .callArray visible (representsAll_of_forall₂ sound each) ?_
    rcases nextItemOr_eq_ok_iff.mp third with ⟨rfl, rfl, rfl⟩ | ⟨d, rfl, distinctRead⟩
    · rcases nextItemOr_eq_ok_iff.mp fourth with ⟨-, rfl, -⟩ | ⟨d, ⟨⟩, -⟩
      exact .none
    · obtain rfl := readBool_eq_ok_iff.mp distinctRead
      rcases nextItemOr_eq_ok_iff.mp fourth with ⟨rfl, rfl, -⟩ | ⟨d, rfl, outputRead⟩
      · exact .distinct distinct
      · exact .output distinct (readOutput_eq_ok_iff.mp outputRead)
  | _ => cases h

theorem readConjunction_sound (h : readConjunction child c = .ok e) :
    Represents .loose (object [("And", c)]) e := by
  obtain ⟨es, taken, h⟩ := bind_eq_ok_iff.mp h
  obtain ⟨two, rfl⟩ := conjunctionOf_eq_ok_iff.mp (built_eq_ok_iff.mp h)
  obtain ⟨items, rfl, each⟩ := readAll_eq_ok_iff.mp taken
  exact .conjunction (representsAll_of_forall₂ sound each) two

theorem readRow_sound (h : readRow child c = .ok e) :
    Represents .loose (object [("Values", c)]) e := by
  cases c with
  | array items =>
    obtain ⟨⟨es, rest⟩, first, h⟩ := bind_eq_ok_iff.mp h
    obtain ⟨⟨columns, last⟩, second, h⟩ := bind_eq_ok_iff.mp h
    obtain ⟨_, done, h⟩ := bind_eq_ok_iff.mp h
    obtain ⟨⟨nonempty, same⟩, rfl⟩ := rowOf_eq_ok_iff.mp (built_eq_ok_iff.mp h)
    obtain ⟨d, rfl, itemsRead⟩ := nextItem_eq_ok_iff.mp first
    obtain ⟨d, rfl, columnsRead⟩ := nextItem_eq_ok_iff.mp second
    obtain rfl := noMoreItems_eq_ok_iff.mp done
    obtain ⟨ds, rfl, each⟩ := readAll_eq_ok_iff.mp itemsRead
    obtain ⟨cs, rfl, targets⟩ := readAll_eq_ok_iff.mp columnsRead
    refine .row (representsAll_of_forall₂ sound each) ?_ nonempty same
    exact targets.imp fun _ _ => readTarget_eq_ok_iff.mp
  | _ => cases h

theorem readNamed_sound (h : readNamed child c = .ok e) :
    Represents .loose (object [("As", c)]) e := by
  cases c with
  | object fields =>
    obtain ⟨output, outputTaken, h⟩ := bind_eq_ok_iff.mp h
    obtain ⟨inner, innerTaken, h⟩ := bind_eq_ok_iff.mp h
    obtain ⟨below, innerThere, h⟩ := bind_eq_ok_iff.mp h
    obtain ⟨word, outputThere, h⟩ := bind_eq_ok_iff.mp h
    obtain rfl := pure_eq_ok_iff.mp h
    obtain ⟨d, found, innerRead⟩ := exists_of_required innerTaken innerThere
    obtain ⟨o, outputFound, outputRead⟩ := exists_of_required outputTaken outputThere
    obtain rfl := readString_eq_ok_iff.mp outputRead
    exact .namedObject found (sound innerRead) outputFound
  | array items =>
    obtain ⟨⟨inner, rest⟩, first, h⟩ := bind_eq_ok_iff.mp h
    obtain ⟨⟨output, last⟩, second, h⟩ := bind_eq_ok_iff.mp h
    obtain ⟨_, done, h⟩ := bind_eq_ok_iff.mp h
    obtain rfl := pure_eq_ok_iff.mp h
    obtain ⟨d, rfl, innerRead⟩ := nextItem_eq_ok_iff.mp first
    obtain ⟨o, rfl, outputRead⟩ := nextItem_eq_ok_iff.mp second
    obtain rfl := noMoreItems_eq_ok_iff.mp done
    obtain rfl := readString_eq_ok_iff.mp outputRead
    exact .namedArray (sound innerRead) output
  | _ => cases h

theorem readContent_sound {kind : Kind} (h : readContent child kind c = .ok e) :
    Represents .loose (object [(kind.tag, c)]) e := by
  cases kind with
  | literal => exact readLiteral_sound h
  | raw =>
    obtain ⟨sql, taken, rfl⟩ := map_eq_ok_iff.mp h
    obtain rfl := readString_eq_ok_iff.mp taken
    exact .raw sql
  | column =>
    obtain ⟨a, taken, rfl⟩ := map_eq_ok_iff.mp h
    exact .column (Attribute.decode_eq_ok_iff.mp taken)
  | arithmetic => exact readArithmetic_sound sound h
  | call => exact readCall_sound sound h
  | conjunction => exact readConjunction_sound sound h
  | negation =>
    obtain ⟨inner, taken, rfl⟩ := map_eq_ok_iff.mp h
    exact .negation (sound taken)
  | row => exact readRow_sound sound h
  | named => exact readNamed_sound sound h

theorem readLevel_sound {d : Document} (h : readLevel child d = .ok e) :
    Represents .loose d e := by
  obtain ⟨⟨name, content⟩, tagged, h⟩ := bind_eq_ok_iff.mp h
  obtain ⟨kind, chosen, h⟩ := bind_eq_ok_iff.mp h
  obtain ⟨c, there, taken⟩ := bind_eq_ok_iff.mp h
  obtain rfl := contentOf_eq_ok_iff.mp there
  obtain rfl := variantOf_tag.mp chosen
  rcases readTagged_eq_ok_iff.mp tagged with ⟨-, ⟨⟩⟩ | ⟨_, rfl, ⟨⟩⟩
  exact readContent_sound sound taken

end Sound

theorem represents_of_decode {d : Document} {e : Expr} (h : decode d = .ok e) :
    Represents .loose d e := by
  have within : ∀ n {d e}, readWithin n d = .ok e → Represents .loose d e := by
    intro n
    induction n with
    | zero =>
      intro d e h
      cases h
    | succ n ih =>
      intro d e h
      exact readLevel_sound ih h
  exact within d.depth h

/-! ### Completeness -/

theorem decode_tagged (kind : Kind) (c : Document) :
    decode (object [(kind.tag, c)]) = readContent decode kind c := by
  rw [decode_eq]
  cases kind <;> rfl

mutual

theorem decode_of_represents {d : Document} {e : Expr} (h : Represents .loose d e) :
    decode d = .ok e := by
  cases h with
  | literalObject found value bound =>
    have valueTaken := field?_of_found found (Value.decode_eq_ok_iff.mpr value)
    obtain ⟨target, targetTaken, rfl⟩ := (field?_fieldOr fun _ _ => readTarget_eq_ok_iff).mp bound
    refine (decode_tagged .literal _).trans ?_
    refine bind_eq_ok_iff.mpr ⟨_, targetTaken, bind_eq_ok_iff.mpr ⟨_, valueTaken, ?_⟩⟩
    rw [join_eq_getD]
    rfl
  | literalArray value bound =>
    have first := nextItem_of_read (Value.decode_eq_ok_iff.mpr value)
    have second := nextItem_of_read (readTarget_eq_ok_iff.mpr bound) []
    refine (decode_tagged .literal _).trans ?_
    exact bind_eq_ok_iff.mpr ⟨_, first _, bind_eq_ok_iff.mpr ⟨_, second, rfl⟩⟩
  | raw sql => exact decode_tagged .raw _
  | column bound =>
    refine (decode_tagged .column _).trans ?_
    exact map_eq_ok_iff.mpr ⟨_, Attribute.decode_eq_ok_iff.mpr bound, rfl⟩
  | arithmeticObject opFound unit leftFound first rightFound second =>
    have opTaken := field?_of_found opFound (Operator.decode_eq_ok_iff.mpr unit)
    have leftTaken := field?_of_found leftFound (decode_of_represents first)
    have rightTaken := field?_of_found rightFound (decode_of_represents second)
    refine (decode_tagged .arithmetic _).trans ?_
    exact bind_eq_ok_iff.mpr ⟨_, leftTaken, bind_eq_ok_iff.mpr ⟨_, opTaken,
      bind_eq_ok_iff.mpr ⟨_, rightTaken, rfl⟩⟩⟩
  | arithmeticArray unit first second =>
    have opTaken := nextItem_of_read (Operator.decode_eq_ok_iff.mpr unit)
    have leftTaken := nextItem_of_read (decode_of_represents first)
    have rightTaken := nextItem_of_read (decode_of_represents second) []
    refine (decode_tagged .arithmetic _).trans ?_
    exact bind_eq_ok_iff.mpr ⟨_, opTaken _, bind_eq_ok_iff.mpr ⟨_, leftTaken _,
      bind_eq_ok_iff.mpr ⟨_, rightTaken, rfl⟩⟩⟩
  | callObject nameFound visible found each distinctForm outputForm =>
    have nameTaken := field?_of_found nameFound (readString_eq_ok_iff.mpr rfl)
    have taken := field?_of_found found
      (readAll_eq_ok_iff.mpr ⟨_, rfl, forall₂_of_representsAll each⟩)
    obtain ⟨distinct, distinctTaken, rfl⟩ :=
      (field?_fieldOr fun _ _ => readBool_eq_ok_iff).mp distinctForm
    obtain ⟨output, outputTaken, rfl⟩ :=
      (field?_fieldOr fun _ _ => readOutput_eq_ok_iff).mp outputForm
    refine (decode_tagged .call _).trans ?_
    refine bind_eq_ok_iff.mpr ⟨_, outputTaken, bind_eq_ok_iff.mpr ⟨_, taken,
      bind_eq_ok_iff.mpr ⟨_, distinctTaken, bind_eq_ok_iff.mpr ⟨_, nameTaken, ?_⟩⟩⟩⟩
    rw [join_eq_getD]
    exact builtCall_eq_ok_iff.mpr ⟨visible, rfl⟩
  | callArray visible each rest =>
    have taken := readAll_eq_ok_iff.mpr ⟨_, rfl, forall₂_of_representsAll each⟩
    refine (decode_tagged .call _).trans ?_
    refine bind_eq_ok_iff.mpr ⟨_, rfl, bind_eq_ok_iff.mpr ⟨_, nextItem_of_read taken _, ?_⟩⟩
    cases rest with
    | none => exact builtCall_eq_ok_iff.mpr ⟨visible, rfl⟩
    | distinct b => exact builtCall_eq_ok_iff.mpr ⟨visible, rfl⟩
    | output b form =>
      have outputTaken := nextItem_of_read (readOutput_eq_ok_iff.mpr form) []
      refine bind_eq_ok_iff.mpr ⟨_, rfl, bind_eq_ok_iff.mpr ⟨_, outputTaken, ?_⟩⟩
      exact builtCall_eq_ok_iff.mpr ⟨visible, rfl⟩
  | conjunction each two =>
    have taken := readAll_eq_ok_iff.mpr ⟨_, rfl, forall₂_of_representsAll each⟩
    refine (decode_tagged .conjunction _).trans ?_
    refine bind_eq_ok_iff.mpr ⟨_, taken, ?_⟩
    exact built_eq_ok_iff.mpr (conjunctionOf_eq_ok_iff.mpr ⟨two, rfl⟩)
  | negation below =>
    refine (decode_tagged .negation _).trans ?_
    exact map_eq_ok_iff.mpr ⟨_, decode_of_represents below, rfl⟩
  | row each targets nonempty same =>
    have itemsTaken := readAll_eq_ok_iff.mpr ⟨_, rfl, forall₂_of_representsAll each⟩
    have columnsTaken := readAll_eq_ok_iff.mpr
      ⟨_, rfl, targets.imp fun _ _ => readTarget_eq_ok_iff.mpr⟩
    refine (decode_tagged .row _).trans ?_
    refine bind_eq_ok_iff.mpr ⟨_, nextItem_of_read itemsTaken _,
      bind_eq_ok_iff.mpr ⟨_, nextItem_of_read columnsTaken [], ?_⟩⟩
    exact built_eq_ok_iff.mpr (rowOf_eq_ok_iff.mpr ⟨⟨nonempty, same⟩, rfl⟩)
  | namedObject found below outputFound =>
    have outputTaken := field?_of_found outputFound (readString_eq_ok_iff.mpr rfl)
    have innerTaken := field?_of_found found (decode_of_represents below)
    refine (decode_tagged .named _).trans ?_
    exact bind_eq_ok_iff.mpr ⟨_, outputTaken, bind_eq_ok_iff.mpr ⟨_, innerTaken, rfl⟩⟩
  | namedArray below output =>
    refine (decode_tagged .named _).trans ?_
    exact bind_eq_ok_iff.mpr ⟨_, nextItem_of_read (decode_of_represents below) _, rfl⟩

theorem forall₂_of_representsAll {ds : List Document} {es : List Expr}
    (h : RepresentsAll .loose ds es) : List.Forall₂ (fun d e => decode d = .ok e) ds es := by
  cases h with
  | nil => exact .nil
  | cons first rest => exact .cons (decode_of_represents first) (forall₂_of_representsAll rest)

end

theorem decode_eq_ok_iff {d : Document} {e : Expr} : decode d = .ok e ↔ Represents .loose d e :=
  ⟨represents_of_decode, decode_of_represents⟩

/-! ### What is represented is well built -/

mutual

theorem wellBuilt_of_represents {l : Layout} {d : Document} {e : Expr} (h : Represents l d e) :
    e.WellBuilt := by
  cases h with
  | literalObject | literalArray | raw | column => exact .of_parts_nil trivial rfl
  | arithmeticObject _ _ _ first _ second =>
    exact .of_two trivial rfl (wellBuilt_of_represents first) (wellBuilt_of_represents second)
  | arithmeticArray _ first second =>
    exact .of_two trivial rfl (wellBuilt_of_represents first) (wellBuilt_of_represents second)
  | callObject _ visible _ each => exact .intro visible (wellBuilt_of_representsAll each)
  | callArray visible each => exact .intro visible (wellBuilt_of_representsAll each)
  | conjunction each two => exact .intro two (wellBuilt_of_representsAll each)
  | negation below => exact .of_part trivial rfl (wellBuilt_of_represents below)
  | row each _ nonempty same =>
    exact .intro ⟨nonempty, same⟩ (wellBuilt_of_representsAll each)
  | namedObject _ below => exact .of_part trivial rfl (wellBuilt_of_represents below)
  | namedArray below => exact .of_part trivial rfl (wellBuilt_of_represents below)

theorem wellBuilt_of_representsAll {l : Layout} {ds : List Document} {es : List Expr}
    (h : RepresentsAll l ds es) : ∀ e ∈ es, e.WellBuilt := by
  cases h with
  | nil =>
    intro e member
    cases member
  | cons first rest =>
    exact List.forall_mem_cons.mpr
      ⟨wellBuilt_of_represents first, wellBuilt_of_representsAll rest⟩

end

end Expr

end SqlFragment
