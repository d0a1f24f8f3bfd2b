import ValueMachine.Proofs.Heap.Boxes
import ValueMachine.Proofs.Machine.Running
import ValueMachine.Value.Arithmetic

/-!
# Operands in boxes

The views of a value as a number, a truth value, a text and a kind read through boxes, so whatever
an operator computes from them is the same for a box and for the value in it. Some operators also
look at the payload of an operand: a sum asks for texts, an order for two texts, equality for null
and for content of the same kind, and the conversion to a number for everything. There a box is
opaque.

Results:
* `IsBoxOf.toNumber_eq` and the lemmas beside it: the views of a box;
* `Operator.apply_boxed`: the operators on a box, wherever they do not look at payloads;
* `Operator.apply_blunt`: what they give on a box where they do;
* `boxes_as_operands`: all operators and conversions.
-/

namespace ValueMachine

/-- A number is seen as itself. -/
theorem Heap.toNumber_of_number {h : Heap} {v : Value} {x : Float}
    (number : h.payload v = .number x) : h.toNumber v = x := by
  have notBox : (h.payload v).isBox = false := by rw [number]; rfl
  rw [toNumber, contentPayload, content_of_not_isBox notBox, number]

/-! ## Views of a box -/

/-- A handle of a box that holds a value which is no box itself. -/
structure Heap.IsBoxOf (h : Heap) (c x : Value) : Prop where
  payload_eq : h.payload c = .box x
  flat : (h.payload x).isBox = false

namespace Heap.IsBoxOf

variable {h : Heap} {c x : Value}

theorem ne_box (boxed : h.IsBoxOf c x) (w : Value) : h.payload x ≠ .box w := by
  intro eq
  have flat := boxed.flat
  rw [eq] at flat
  cases flat

theorem contentPayload_eq (boxed : h.IsBoxOf c x) : h.contentPayload c = h.contentPayload x := by
  have inner : h.follow h.size x = x := by
    rw [follow_eq_iterate]
    exact Function.iterate_fixed (unbox_of_ne_box boxed.ne_box) _
  rw [contentPayload, contentPayload, content_of_ne_box boxed.ne_box, content, follow,
    boxed.payload_eq]
  exact congrArg h.payload inner

theorem toNumber_eq (boxed : h.IsBoxOf c x) : h.toNumber c = h.toNumber x := by
  unfold toNumber
  rw [boxed.contentPayload_eq]

theorem isTruthy_eq (boxed : h.IsBoxOf c x) : h.isTruthy c = h.isTruthy x := by
  unfold isTruthy
  rw [boxed.contentPayload_eq]

theorem display_eq (boxed : h.IsBoxOf c x) : h.display c = h.display x := by
  unfold display
  rw [boxed.contentPayload_eq]

theorem kind_eq (boxed : h.IsBoxOf c x) : h.kind c = h.kind x := by
  unfold kind
  rw [boxed.contentPayload_eq]

end Heap.IsBoxOf

/-! ## Operators -/

/-- The operators with two operands. -/
inductive Operator where
  | add
  | sub
  | mul
  | div
  | modulo
  | lt
  | le
  | gt
  | ge
  | equals
  | notEquals
  deriving DecidableEq

namespace Operator

def apply : Operator → Value → Value → HeapM Value
  | add => Value.add
  | sub => Value.sub
  | mul => Value.mul
  | div => Value.div
  | modulo => Value.modulo
  | lt => Value.lt
  | le => Value.le
  | gt => Value.gt
  | ge => Value.ge
  | equals => Value.equals
  | notEquals => Value.notEquals

/-- Whether an operator asks an operand for something that a box around it hides: whether it is a
text, while the other operand is no text or has to be one too; whether it is null; or what it is,
while the other operand is of the same kind. -/
def LooksInto (h : Heap) (x y : Value) : Operator → Prop
  | add => (h.payload x).text?.isSome = true ∧ (h.payload y).text? = none
  | lt | le | gt | ge => (h.payload x).text?.isSome = true ∧ (h.payload y).text?.isSome = true
  | equals | notEquals =>
    (h.payload x).isNull = true ∨ (h.payload y).isNull = false ∧ h.kind x = h.kind y
  | sub | mul | div | modulo => False

instance (h : Heap) (x y : Value) : DecidablePred (LooksInto h x y)
  | add => inferInstanceAs (Decidable (_ ∧ _))
  | lt | le | gt | ge => inferInstanceAs (Decidable (_ ∧ _))
  | equals | notEquals => inferInstanceAs (Decidable (_ ∨ _ ∧ _))
  | sub | mul | div | modulo => inferInstanceAs (Decidable False)

/-- Equality where one operand is a box: nothing equals null, and values of one kind are equal if
they are identical. -/
def bluntEqual (h : Heap) (a b : Value) : Bool :=
  !(h.payload a).isNull && !(h.payload b).isNull &&
    if h.kind a = h.kind b then a == b else h.toNumber a == h.toNumber b

/-- What an operator does where a box hides the form of an operand: it adds and compares numbers. -/
def blunt : Operator → Value → Value → HeapM Value
  | add => Value.arithmetic (· + ·)
  | lt => fun a b => Value.comparison fun h => h.toNumber a < h.toNumber b
  | le => fun a b => Value.comparison fun h => h.toNumber a ≤ h.toNumber b
  | gt => fun a b => Value.comparison fun h => h.toNumber b < h.toNumber a
  | ge => fun a b => Value.comparison fun h => h.toNumber b ≤ h.toNumber a
  | equals => fun a b => Value.comparison fun h => bluntEqual h a b
  | notEquals => fun a b => Value.comparison fun h => !bluntEqual h a b
  | op => op.apply

/-! ### Running an operator -/

theorem perform_arithmetic (f : Float → Float → Float) (a b : Value) (config : Config) (h : Heap) :
    (Value.arithmetic f a b).perform config h =
      (Value.ofNumber (f (h.toNumber a) (h.toNumber b))).perform config h := rfl

theorem perform_comparison (test : Heap → Bool) (config : Config) (h : Heap) :
    (Value.comparison test).perform config h = (.bool (test h), h) := rfl

theorem perform_neg (v : Value) (config : Config) (h : Heap) :
    (Value.neg v).perform config h = (Value.ofNumber (-h.toNumber v)).perform config h := by
  unfold Value.neg HeapM.perform
  rw [ReaderT.run_bind, StateT.run_bind]
  rfl

theorem perform_add (a b : Value) (config : Config) (h : Heap) :
    (Value.add a b).perform config h =
      if (h.payload a).text?.isSome || (h.payload b).text?.isSome then
        (Value.ofText (h.display a ++ h.display b)).perform config h
      else (Value.arithmetic (· + ·) a b).perform config h := by
  show ((if _ then _ else _ : HeapM Value).run config).run h = _
  split <;> rfl

variable {h : Heap} {a b c x y : Value}

/-! ### Order -/

theorem less_eq (no : ¬((h.payload a).text?.isSome = true ∧ (h.payload b).text?.isSome = true)) :
    h.less a b = decide (h.toNumber a < h.toNumber b) := by
  unfold Heap.less
  split
  · next p q => simp [p, q, Payload.text?] at no
  · rfl

theorem lessOrEqual_eq
    (no : ¬((h.payload a).text?.isSome = true ∧ (h.payload b).text?.isSome = true)) :
    h.lessOrEqual a b = decide (h.toNumber a ≤ h.toNumber b) := by
  unfold Heap.lessOrEqual
  split
  · next p q => simp [p, q, Payload.text?] at no
  · rfl

/-- A box is no text, in either place. -/
theorem not_texts (box : h.IsBoxOf c x) (y : Value) :
    ¬((h.payload c).text?.isSome = true ∧ (h.payload y).text?.isSome = true) ∧
      ¬((h.payload y).text?.isSome = true ∧ (h.payload c).text?.isSome = true) := by
  simp [box.payload_eq, Payload.text?]

theorem less_boxed (box : h.IsBoxOf c x) (no : ¬LooksInto h x y .lt) :
    h.less c y = h.less x y ∧ h.less y c = h.less y x := by
  have texts := not_texts box y
  rw [less_eq texts.1, less_eq texts.2, less_eq no, less_eq (mt And.symm no), box.toNumber_eq]
  exact ⟨rfl, rfl⟩

theorem lessOrEqual_boxed (box : h.IsBoxOf c x) (no : ¬LooksInto h x y .le) :
    h.lessOrEqual c y = h.lessOrEqual x y ∧ h.lessOrEqual y c = h.lessOrEqual y x := by
  have texts := not_texts box y
  rw [lessOrEqual_eq texts.1, lessOrEqual_eq texts.2, lessOrEqual_eq no,
    lessOrEqual_eq (mt And.symm no), box.toNumber_eq]
  exact ⟨rfl, rfl⟩

/-! ### Equality -/

theorem equal_eq_blunt (box : (h.payload a).isBox = true ∨ (h.payload b).isBox = true) :
    h.equal a b = bluntEqual h a b := by
  unfold Heap.equal bluntEqual
  generalize h.payload a = p, h.payload b = q at box
  by_cases null : (p.isNull || q.isNull) = true
  · rw [if_pos null]
    cases hp : p.isNull <;> cases hq : q.isNull <;> simp [hp, hq] at null ⊢
    -- two nulls are no boxes
    cases p <;> cases q <;> simp [Payload.isNull, Payload.isBox] at hp hq box
  · rw [if_neg null]
    rw [Bool.or_eq_true, not_or, Bool.not_eq_true, Bool.not_eq_true] at null
    rw [null.1, null.2, Bool.not_false, Bool.true_and, Bool.true_and]
    by_cases same : h.kind a = h.kind b
    · rw [if_neg (not_not.mpr same), if_pos same]
      split <;> first | rfl | simp [Payload.isBox] at box
    · rw [if_pos same, if_neg same]

theorem equal_boxed (box : h.IsBoxOf c x) (no : ¬LooksInto h x y .equals) :
    h.equal c y = h.equal x y ∧ h.equal y c = h.equal y x := by
  have isBox : (h.payload c).isBox = true := by rw [box.payload_eq]; rfl
  have notNull : (h.payload x).isNull = false := by simpa using fun null => no (.inl null)
  have notNull' : (h.payload c).isNull = false := by rw [box.payload_eq]; rfl
  rw [equal_eq_blunt (.inl isBox), equal_eq_blunt (.inr isBox)]
  unfold bluntEqual Heap.equal
  dsimp only
  rw [notNull, notNull', box.kind_eq, box.toNumber_eq]
  cases null : (h.payload y).isNull with
  | true => exact ⟨rfl, rfl⟩
  | false =>
    have differ : h.kind x ≠ h.kind y := fun same => no (.inr ⟨null, same⟩)
    simp [differ, differ.symm]

/-! ### All operators -/

variable {config : Config}

theorem comparison_congr {test test' : Heap → Bool} (eq : test h = test' h) :
    (Value.comparison test).perform config h = (Value.comparison test').perform config h := by
  rw [perform_comparison, perform_comparison, eq]

/-- Wherever an operator does not look into an operand, a box may be put around it. -/
theorem apply_boxed (box : h.IsBoxOf c x) {op : Operator} (no : ¬LooksInto h x y op) :
    (op.apply c y).perform config h = (op.apply x y).perform config h ∧
      (op.apply y c).perform config h = (op.apply y x).perform config h := by
  have arithmetic (f : Float → Float → Float) :
      (Value.arithmetic f c y).perform config h = (Value.arithmetic f x y).perform config h ∧
        (Value.arithmetic f y c).perform config h = (Value.arithmetic f y x).perform config h := by
    simp only [perform_arithmetic, box.toNumber_eq, and_self]
  cases op with
  | add =>
    have sum := arithmetic (· + ·)
    have hidden : (h.payload c).text? = none := by rw [box.payload_eq]; rfl
    simp only [apply, perform_add, box.display_eq, sum.1, sum.2, hidden]
    cases text : (h.payload x).text? with
    | none => exact ⟨rfl, rfl⟩
    | some content =>
      -- the other operand is a text as well
      cases text' : (h.payload y).text? with
      | none => exact absurd ⟨by rw [text]; rfl, text'⟩ no
      | some content' => exact ⟨rfl, rfl⟩
  | sub => exact arithmetic _
  | mul => exact arithmetic _
  | div => exact arithmetic _
  | modulo => exact arithmetic _
  | lt => exact (less_boxed box no).imp comparison_congr comparison_congr
  | le => exact (lessOrEqual_boxed box no).imp comparison_congr comparison_congr
  | gt => exact (less_boxed box no).symm.imp comparison_congr comparison_congr
  | ge => exact (lessOrEqual_boxed box no).symm.imp comparison_congr comparison_congr
  | equals => exact (equal_boxed box no).imp comparison_congr comparison_congr
  | notEquals =>
    exact (equal_boxed box no).imp (fun eq => comparison_congr (congrArg not eq))
      fun eq => comparison_congr (congrArg not eq)

/-- Where an operator looks into an operand, it sees a box. -/
theorem apply_blunt (box : h.IsBoxOf c x) {op : Operator} (looks : LooksInto h x y op) :
    (op.apply c y).perform config h = (op.blunt c y).perform config h ∧
      (op.apply y c).perform config h = (op.blunt y c).perform config h := by
  have texts := not_texts box y
  have isBox : (h.payload c).isBox = true := by rw [box.payload_eq]; rfl
  cases op with
  | add =>
    have hidden : (h.payload c).text? = none := by rw [box.payload_eq]; rfl
    simp only [apply, perform_add, hidden, looks.2]
    exact ⟨rfl, rfl⟩
  | sub => exact ⟨rfl, rfl⟩
  | mul => exact ⟨rfl, rfl⟩
  | div => exact ⟨rfl, rfl⟩
  | modulo => exact ⟨rfl, rfl⟩
  | lt => exact ⟨comparison_congr (less_eq texts.1), comparison_congr (less_eq texts.2)⟩
  | le =>
    exact ⟨comparison_congr (lessOrEqual_eq texts.1), comparison_congr (lessOrEqual_eq texts.2)⟩
  | gt => exact ⟨comparison_congr (less_eq texts.2), comparison_congr (less_eq texts.1)⟩
  | ge =>
    exact ⟨comparison_congr (lessOrEqual_eq texts.2), comparison_congr (lessOrEqual_eq texts.1)⟩
  | equals =>
    exact ⟨comparison_congr (equal_eq_blunt (.inl isBox)),
      comparison_congr (equal_eq_blunt (.inr isBox))⟩
  | notEquals =>
    exact ⟨comparison_congr (congrArg not (equal_eq_blunt (.inl isBox))),
      comparison_congr (congrArg not (equal_eq_blunt (.inr isBox)))⟩

end Operator

/-! ## Conversions -/

variable {c x : Value}

/-- The text form of a value is a text of what concatenation sees. -/
theorem toStr_ends (m : Machine) (v : Value) :
    (Value.toStr v).Ends m
      (fun w m' => m'.status = .ok ∧ (m'.heap.payload w).text? = some (m.heap.display v))
      fun _ _ => False := by
  unfold Run.Ends Value.toStr
  rw [Run.bind_payloadOf]
  cases payload : m.heap.payload v with
  | text isStatic content =>
    have same : m.heap.display v = content := by
      have notBox : (m.heap.payload v).isBox = false := by rw [payload]; rfl
      rw [Heap.display, Heap.contentPayload, Heap.content_of_not_isBox notBox, payload]
    show Status.ok = .ok ∧ (m.heap.payload v).text? = _
    rw [payload, same]
    exact ⟨rfl, rfl⟩
  | _ =>
    refine ⟨rfl, ?_⟩
    exact congrArg (Payload.text? ∘ Cell.payload) (m.heap.cell_alloc_self _)

/-- How the conversion of a box to a number fails. -/
def boxNotNumber : Fault := .argument "toNum" "Cannot convert array/object to number"

/-- The conversion of a box to a number fails, whatever is in it. -/
theorem perform_toNum_box {h : Heap} (config : Config) (payload : h.payload c = .box x) :
    HeapM.perform (Value.toNum c).run config h =
      HeapM.perform (failNull boxNotNumber .number : Attempt Value).run config h := by
  rw [Value.toNum, Attempt.bind_payloadOf, payload]
  rfl

/-- It fails like that for arrays, objects and functions only. -/
theorem perform_toNum_eq_iff {h : Heap} (config : Config) (flat : (h.payload x).isBox = false) :
    HeapM.perform (Value.toNum x).run config h =
      HeapM.perform (failNull boxNotNumber .number : Attempt Value).run config h ↔
      h.kind x = .array ∨ h.kind x = .object ∨ h.kind x = .function := by
  have kind : h.kind x = (h.payload x).ownKind := by
    rw [Heap.kind, Heap.contentPayload, Heap.content_of_not_isBox flat]
  have succeeds (number : HeapM Value) :
      HeapM.perform (liftM number : Attempt Value).run config h ≠
        HeapM.perform (failNull boxNotNumber .number : Attempt Value).run config h := by
    intro eq
    have first : Except.ok (HeapM.perform number config h).1 = .error _ := congrArg Prod.fst eq
    cases first
  have refuses {problem : String}
      (ne : (Fault.argument "toNum" problem).status ≠ boxNotNumber.status) :
      HeapM.perform (failNull (.argument "toNum" problem) .number : Attempt Value).run config h ≠
        HeapM.perform (failNull boxNotNumber .number : Attempt Value).run config h := by
    intro eq
    rw [perform_failNull, perform_failNull, Prod.mk.injEq, Except.error.injEq,
      Failure.mk.injEq] at eq
    exact ne eq.1.1
  rw [Value.toNum, Attempt.bind_payloadOf, kind]
  cases payload : h.payload x with
  | array items => exact iff_of_true rfl (.inl rfl)
  | object fields => exact iff_of_true rfl (.inr (.inl rfl))
  | extension e => exact iff_of_true rfl (.inr (.inl rfl))
  | function f => exact iff_of_true rfl (.inr (.inr rfl))
  | box w => rw [payload] at flat; cases flat
  | undefined => exact iff_of_false (succeeds _) (by simp [Payload.ownKind])
  | null => exact iff_of_false (succeeds _) (by simp [Payload.ownKind])
  | bool b => exact iff_of_false (succeeds _) (by simp [Payload.ownKind])
  | number n => exact iff_of_false (succeeds (pure x)) (by simp [Payload.ownKind])
  | text isStatic content =>
    refine iff_of_false ?_ (by simp [Payload.ownKind])
    dsimp only
    split
    · exact refuses (by decide)
    · have heap : HeapM.perform (get : Attempt Heap).run config h = (.ok h, h) := rfl
      rw [Attempt.bind_ok heap]
      split
      · exact succeeds _
      · exact refuses (by decide)

/-! ## All operators and conversions -/

/-- What a box around an operand changes. No operator and no view notices it, except where an
operator looks into the operand: there it sees a box, which is no text, is not null and equals only
itself. The text form has the same content; the conversion to a number refuses the box. -/
theorem boxes_as_operands (m : Machine) {c x : Value} (box : m.heap.IsBoxOf c x) :
    (∀ op y,
      (¬Operator.LooksInto m.heap x y op →
        (op.apply c y).perform m.config m.heap = (op.apply x y).perform m.config m.heap ∧
          (op.apply y c).perform m.config m.heap = (op.apply y x).perform m.config m.heap) ∧
      (Operator.LooksInto m.heap x y op →
        (op.apply c y).perform m.config m.heap = (op.blunt c y).perform m.config m.heap ∧
          (op.apply y c).perform m.config m.heap = (op.blunt y c).perform m.config m.heap)) ∧
    (Value.neg c).perform m.config m.heap = (Value.neg x).perform m.config m.heap ∧
    m.heap.isTruthy c = m.heap.isTruthy x ∧
    m.heap.display c = m.heap.display x ∧
    (∀ v ∈ [c, x], (Value.toStr v).Ends m
      (fun w m' => m'.status = .ok ∧ (m'.heap.payload w).text? = some (m.heap.display x))
      fun _ _ => False) ∧
    (settle (Value.toNum c)).Ends m (fun _ m' => m'.status = boxNotNumber.status)
      (fun _ _ => False) ∧
    ((settle (Value.toNum c)).run.run m = (settle (Value.toNum x)).run.run m ↔
      m.heap.kind x = .array ∨ m.heap.kind x = .object ∨ m.heap.kind x = .function) := by
  have failed := perform_toNum_box m.config box.payload_eq
  refine ⟨fun op y => ⟨Operator.apply_boxed box, Operator.apply_blunt box⟩, ?_, box.isTruthy_eq,
    box.display_eq, ?_, ?_, ?_⟩
  · rw [Operator.perform_neg, Operator.perform_neg, box.toNumber_eq]
  · rw [List.forall_mem_cons, List.forall_mem_singleton]
    refine ⟨?_, toStr_ends m x⟩
    rw [← box.display_eq]
    exact toStr_ends m c
  · unfold Run.Ends
    rw [settle_eq, failed]
    rfl
  · have refused : HeapM.perform (Value.toNum c).run m.config m.heap = _ :=
      failed.trans (perform_failNull ..)
    rw [← perform_toNum_eq_iff m.config box.flat, ← failed, eq_comm,
      settle_eq_settle_iff refused (show boxNotNumber.status ≠ .ok by decide)]

/-- Two texts, a box around the first, and a box that holds `true`. -/
def boxedTexts : Machine :=
  { Machine.start ⟨"linux", "2024-01-01 00:00:00", 0, 0.5⟩ [] with
    heap := .ofCells #[.ofPayload (.text false "a"), .ofPayload (.text false "b"),
      ⟨.string, .counted, .box (.cell 0)⟩, ⟨.bool, .counted, .box (.bool true)⟩] }

/-- The text is looked into by an order with a text, but not by one with a truth value. -/
theorem boxes_as_operands_text :
    let h := boxedTexts.heap
    h.IsBoxOf (.cell 2) (.cell 0) ∧
      (Value.lt (.cell 2) (.bool true)).perform boxedTexts.config h =
        (Value.lt (.cell 0) (.bool true)).perform boxedTexts.config h ∧
      (Value.lt (.cell 2) (.cell 1)).perform boxedTexts.config h = (.bool false, h) ∧
      (Value.neg (.cell 2)).perform boxedTexts.config h =
        (Value.neg (.cell 0)).perform boxedTexts.config h ∧
      (settle (Value.toNum (.cell 2))).run.run boxedTexts ≠
        (settle (Value.toNum (.cell 0))).run.run boxedTexts := by
  have box : boxedTexts.heap.IsBoxOf (.cell 2) (.cell 0) := ⟨rfl, rfl⟩
  obtain ⟨operators, neg, _, _, _, _, toNum⟩ := boxes_as_operands boxedTexts box
  refine ⟨box, ((operators .lt (.bool true)).1 (by decide)).1, ?_, neg, mt toNum.mp (by decide)⟩
  have blunt := ((operators .lt (.cell 1)).2 (by decide)).1
  have unordered : ((Operator.lt.blunt (.cell 2) (.cell 1)).perform boxedTexts.config
      boxedTexts.heap).1 = .bool false := by decide +kernel
  exact blunt.trans (congrArg (·, boxedTexts.heap) unordered)

/-- A sum, an order, an equality and a conversion see the boxes. -/
theorem boxes_as_operands_opaque :
    let h := boxedTexts.heap
    h.IsBoxOf (.cell 2) (.cell 0) ∧ h.IsBoxOf (.cell 3) (.bool true) ∧
      ((Value.add (.cell 2) (.bool true)).perform boxedTexts.config h).1 = .small 1 ∧
      (Value.add (.cell 0) (.bool true)).perform boxedTexts.config h =
        (Value.ofText "atrue").perform boxedTexts.config h ∧
      ((Value.lt (.cell 2) (.cell 1)).perform boxedTexts.config h).1 = .bool false ∧
      ((Value.lt (.cell 0) (.cell 1)).perform boxedTexts.config h).1 = .bool true ∧
      ((Value.equals (.cell 3) (.bool true)).perform boxedTexts.config h).1 = .bool false ∧
      ((Value.equals (.bool true) (.bool true)).perform boxedTexts.config h).1 = .bool true ∧
      ((settle (Value.toNum (.cell 3))).run.run boxedTexts).2.status = boxNotNumber.status ∧
      ((settle (Value.toNum (.bool true))).run.run boxedTexts).2.status = .ok := by
  refine ⟨⟨rfl, rfl⟩, ⟨rfl, rfl⟩, ?_, rfl, ?_, ?_, ?_, ?_, rfl, rfl⟩
  · decide +kernel
  · decide +kernel
  · decide +kernel
  · decide +kernel
  · decide +kernel

end ValueMachine
