import Interlingua.Proofs.Record.Attaching
import Interlingua.Proofs.Types

/-!
# Declared types in records

The type that a list is declared with is read from a spelling, and goes into a record where a
language has no place for it. Declaring the bare list by its record gives the declared list again.
The only exception is an array whose element type is unknown: it is not recorded, so that a type the
elements share takes its place.
-/

namespace Interlingua

namespace Assign

/-- A declaration touches the value only to give a list an array type, or to give a list or tuple a
tuple type of its length. -/
theorem every_declare {q : Expr → Bool} {a : Assign} (type : DeclaredType)
    (h : a.value.every q = true)
    (arrays : ∀ es element homogeneous, type = .array element homogeneous →
      Expr.everyAll q es = true → q (.list es element homogeneous) = true)
    (tuples : ∀ es types, type = .tuple types → es.length = types.length →
      Expr.everyAll q es = true → q (.tuple es types) = true) :
    (a.declare type).value.every q = true := by
  obtain ⟨target, value, own⟩ := a
  cases type with
  | base _ | named _ | unknown => exact h
  | array element homogeneous =>
    cases value with
    | list es _ _ =>
      have inner := ((Bool.and_eq_true _ _).mp h).2
      exact (Bool.and_eq_true _ _).mpr ⟨arrays es element homogeneous rfl inner, inner⟩
    | _ => exact h
  | tuple types =>
    cases value with
    | list es _ _ | tuple es _ =>
      have inner := ((Bool.and_eq_true _ _).mp h).2
      by_cases fits : es.length = types.length
      · simpa [declare, fits, Expr.every, inner] using tuples es types rfl fits inner
      · simpa [declare, fits] using h
    | _ => exact h

/-- A spelled type leaves a list in a state that its record restores, unless its elements have to be
of a type that it does not say. -/
theorem restorable_declare {type : DeclaredType} (spelled : type.Spelled) (id : String)
    (es : List Expr) (kept : ¬ (type = .arrayOf .unknown ∧ (Expr.sharedType es).isKnown = true)) :
    ((store id (.listOf es)).declare type).restorable = true := by
  cases spelled with
  | base known => simp [declare, store, restorable, Expr.listOf]
  | named name => simp [declare, store, restorable, Expr.listOf]
  | unknown => simp [declare, store, restorable, Expr.listOf]
  | tuple inhabited =>
    rename_i types
    by_cases fits : es.length = types.length
    · simp [declare, store, restorable, Expr.listOf, fits, inhabited, BaseType.isKnown]
    · simp [declare, store, restorable, Expr.listOf, fits]
  | arrayOf element =>
    by_cases known : element = .unknown
    · subst known
      have unshared : Expr.sharedType es = .unknown := by simpa [BaseType.isKnown] using kept
      simp [declare, store, restorable, Expr.listOf, DeclaredType.arrayOf, unshared,
        BaseType.isClosed, BaseType.isKnown]
    · simp [declare, store, restorable, Expr.listOf, DeclaredType.arrayOf, known,
        BaseType.isClosed, BaseType.isKnown]

/-- An array type with unknown elements leaves no record. -/
theorem ofAssign_declare_unknowns (id : String) (es : List Expr) :
    Record.ofAssign ((store id (.listOf es)).declare (.arrayOf .unknown)) = {} := by
  simp [Record.ofAssign, Record.containerType?, declare, store, Expr.listOf, DeclaredType.arrayOf,
    BaseType.isKnown]

/-- The type a list is declared with comes back from its record, exactly if it is not an array of
unknown elements over constants that share a type. Of such a list nothing is recorded, and it comes
back as if nothing had been declared. -/
theorem declareRecord_ofAssign_declare (id : String) (es : List Expr)
    (own : Expr.everyAll Expr.ownTyped es = true) (spelling : List Char) :
    let bare := store id (.listOf es)
    let declared := bare.declare (.parse spelling)
    let overruled := DeclaredType.parse spelling = .arrayOf .unknown ∧
      (Expr.sharedType es).isKnown = true
    (bare.declareRecord (Record.ofAssign declared) = declared ↔ ¬ overruled) ∧
    (overruled → Record.ofAssign declared = {} ∧
      bare.declareRecord (Record.ofAssign declared) = bare) := by
  intro bare declared overruled
  have unrecorded (h : overruled) : Record.ofAssign declared = {} := by
    rw [show declared = bare.declare (.arrayOf .unknown) from congrArg bare.declare h.1]
    exact ofAssign_declare_unknowns id es
  have lost (h : overruled) : bare.declareRecord (Record.ofAssign declared) = bare := by
    rw [unrecorded h]
    rfl
  refine ⟨⟨fun restored h => ?_, fun kept => ?_⟩, fun h => ⟨unrecorded h, lost h⟩⟩
  · -- the bare list is homogeneous, the declared one is not
    have same : bare = bare.declare (.arrayOf .unknown) := by
      rw [← h.1]
      exact (lost h).symm.trans restored
    have homogeneous : (Expr.sharedType es).isKnown = false := by
      have values := congrArg Assign.value same
      simp only [bare, store, Expr.listOf, declare, DeclaredType.arrayOf] at values
      exact (Expr.list.inj values).2.2
    rw [h.2] at homogeneous
    cases homogeneous
  · have erased : declared.erase = bare := bare.erase_declare _
    have values : declared.value.every Expr.ownTyped = true :=
      every_declare _ own (fun _ _ _ _ _ => rfl) fun _ _ _ _ _ => rfl
    have restored := declared.declareRecord_erase values
      (restorable_declare (DeclaredType.spelled_parse spelling) id es kept)
    rwa [erased] at restored

theorem declareRecord_ofAssign_declare_pair :
    let bare := store "p" (.listOf [.lit (.str "a"), .lit (.int 1)])
    let declared := bare.declare (.parse "[string, number]".toList)
    declared.value = .tuple [.lit (.str "a"), .lit (.int 1)] [.string, .number] ∧
    bare.declareRecord (Record.ofAssign declared) = declared := by
  refine ⟨rfl, ?_⟩
  exact (declareRecord_ofAssign_declare "p" [.lit (.str "a"), .lit (.int 1)] (by decide)
    "[string, number]".toList).1.2 (by decide)

theorem declareRecord_ofAssign_declare_overruled :
    let bare := store "xs" (.listOf [.lit (.int 1)])
    let declared := bare.declare (.parse "Foo[]".toList)
    Expr.everyAll Expr.ownTyped [.lit (.int 1)] = true ∧
    bare.declareRecord (Record.ofAssign declared) ≠ declared := by
  refine ⟨rfl, fun restored => ?_⟩
  have elements : BaseType.number = .unknown :=
    (Expr.list.inj (congrArg Assign.value restored)).2.1
  cases elements

end Assign

end Interlingua
