import YakUnshorn.EventTypes
import YakUnshorn.Lib.CMachine

/-!
The render callbacks of `ox-kernel/display.c`: a list that is threaded through the
slots of a store.
-/

namespace YakUnshorn

open CMachine

def maxRenderCbs : Nat := 32

abbrev RenderSlot := Fin maxRenderCbs

/-- `ox_RenderCB`. A slot is free while `f` is null. -/
structure OxRenderCB where
  f : Pointer
  userData : Pointer
  next : Option RenderSlot
  prev : Option RenderSlot
  deriving Repr, DecidableEq

structure OxDisplay where
  sdlRenderer : Pointer
  renderCbStore : RenderSlot → OxRenderCB
  firstRenderCb : Option RenderSlot

def oxiMakeDisplay (sdlRenderer : Pointer) : OxDisplay where
  sdlRenderer := sdlRenderer
  renderCbStore := fun _ => ⟨0, 0, none, none⟩
  firstRenderCb := none

/-- What a caller gets of `ox_register_render_cb`: it returns null on its error paths, and reaches
its end without a return statement otherwise. -/
inductive RegisterResult
  | null
  | unspecified
  deriving Repr, DecidableEq

namespace OxDisplay

def assign (display : OxDisplay) (slot : RenderSlot) (change : OxRenderCB → OxRenderCB) :
    OxDisplay :=
  { display with
    renderCbStore :=
      Function.update display.renderCbStore slot (change (display.renderCbStore slot)) }

def assignTo (display : OxDisplay) (pointer : Option RenderSlot)
    (change : OxRenderCB → OxRenderCB) : OxDisplay :=
  pointer.elim display fun slot => display.assign slot change

end OxDisplay

def availRenderCb (display : OxDisplay) : Option RenderSlot :=
  (List.finRange maxRenderCbs).find? fun slot => (display.renderCbStore slot).f = 0

def oxRegisterRenderCb (display : OxDisplay) (renderCb userData : Pointer) :
    OxDisplay × RegisterResult :=
  if renderCb = 0 then (display, .null)
  else
    match availRenderCb display with
    | none => (display, .null)
    | some cb =>
        let display := display.assign cb fun slot => { slot with f := renderCb, userData }
        let display :=
          display.assignTo display.firstRenderCb fun slot => { slot with prev := some cb }
        ({ display with firstRenderCb := some cb }, .unspecified)

def oxDeregisterRenderCb (display : OxDisplay) (cb : RenderSlot) : OxDisplay :=
  let display := display.assign cb fun slot => { slot with f := 0 }
  let display := display.assignTo (display.renderCbStore cb).next fun slot =>
    { slot with prev := (display.renderCbStore cb).prev }
  let display := display.assignTo (display.renderCbStore cb).prev fun slot =>
    { slot with next := (display.renderCbStore cb).next }
  if display.firstRenderCb = some cb then
    { display with firstRenderCb := (display.renderCbStore cb).next }
  else display

structure RenderCall where
  f : Pointer
  renderer : Pointer
  userData : Pointer
  deriving Repr, DecidableEq

abbrev RenderTrace := List (RenderCall × Bool) × Bool

/-- The loop of `oxi_render_and_present`, where `result` gives the result of the n-th call. A walk
that visits more slots than there are goes on forever. -/
def renderLoop (result : Nat → Bool) (display : OxDisplay) :
    Nat → Option RenderSlot → RenderTrace → Except Fault RenderTrace
  | _, none, rendered => .ok rendered
  | 0, some _, _ => .error .nonTermination
  | fuel + 1, some cb, (trace, didError) =>
      let slot := display.renderCbStore cb
      if slot.f = 0 then .error .nullDereference
      else
        let ok := result trace.length
        let call : RenderCall := ⟨slot.f, display.sdlRenderer, slot.userData⟩
        renderLoop result display fuel slot.next (trace ++ [(call, ok)], didError || !ok)

/-- `oxi_render_and_present`, less what it draws itself. -/
def oxiRenderAndPresent (result : Nat → Bool) (display : OxDisplay) : Except Fault RenderTrace :=
  renderLoop result display maxRenderCbs display.firstRenderCb ([], false)

namespace OxDisplay

def Unlinked (display : OxDisplay) : Prop :=
  ∀ slot, (display.renderCbStore slot).next = none

theorem unlinked_assign {display : OxDisplay} (unlinked : display.Unlinked) (slot : RenderSlot)
    {change : OxRenderCB → OxRenderCB}
    (keeps : (change (display.renderCbStore slot)).next = none) :
    (display.assign slot change).Unlinked := by
  intro query
  simp only [assign, Function.update_apply]
  split
  · exact keeps
  · exact unlinked query

def callback (display : OxDisplay) (slot : RenderSlot) : Pointer × Pointer :=
  ((display.renderCbStore slot).f, (display.renderCbStore slot).userData)

theorem callback_assign (display : OxDisplay) (slot : RenderSlot)
    (change : OxRenderCB → OxRenderCB) :
    (display.assign slot change).callback =
      Function.update display.callback slot ((change (display.renderCbStore slot)).f,
        (change (display.renderCbStore slot)).userData) := by
  funext query
  simp only [callback, assign, Function.update_apply]
  split <;> rfl

theorem unlinked_assignTo {display : OxDisplay} (unlinked : display.Unlinked)
    (pointer : Option RenderSlot) {change : OxRenderCB → OxRenderCB}
    (keeps : ∀ old, old.next = none → (change old).next = none) :
    (display.assignTo pointer change).Unlinked := by
  cases pointer with
  | none => exact unlinked
  | some slot => exact unlinked_assign unlinked slot (keeps _ (unlinked slot))

theorem callback_assignTo_link (display : OxDisplay) (pointer : Option RenderSlot)
    {change : OxRenderCB → OxRenderCB}
    (keeps : ∀ old, (change old).f = old.f ∧ (change old).userData = old.userData) :
    (display.assignTo pointer change).callback = display.callback := by
  cases pointer with
  | none => rfl
  | some slot =>
      rw [assignTo, Option.elim_some, callback_assign, (keeps _).1, (keeps _).2]
      exact Function.update_eq_self slot display.callback

@[simp] theorem assignTo_firstRenderCb (display : OxDisplay) (pointer : Option RenderSlot)
    (change : OxRenderCB → OxRenderCB) :
    (display.assignTo pointer change).firstRenderCb = display.firstRenderCb := by
  cases pointer <;> rfl

@[simp] theorem assignTo_sdlRenderer (display : OxDisplay) (pointer : Option RenderSlot)
    (change : OxRenderCB → OxRenderCB) :
    (display.assignTo pointer change).sdlRenderer = display.sdlRenderer := by
  cases pointer <;> rfl

end OxDisplay

theorem availRenderCb_some {display : OxDisplay} {cb : RenderSlot}
    (found : availRenderCb display = some cb) : (display.callback cb).1 = 0 := by
  simpa [OxDisplay.callback] using List.find?_some found

theorem availRenderCb_none {display : OxDisplay} (none : availRenderCb display = none)
    (slot : RenderSlot) : (display.callback slot).1 ≠ 0 := by
  simpa [OxDisplay.callback] using List.find?_eq_none.mp none slot (List.mem_finRange slot)

theorem oxRegisterRenderCb_spec {display after : OxDisplay} (unlinked : display.Unlinked)
    {renderCb : Pointer} (userData : Pointer) (callable : renderCb ≠ 0) {cb : RenderSlot}
    (found : availRenderCb display = some cb)
    (registered : (oxRegisterRenderCb display renderCb userData).1 = after) :
    after.Unlinked ∧ after.firstRenderCb = some cb ∧ after.sdlRenderer = display.sdlRenderer ∧
      after.callback = Function.update display.callback cb (renderCb, userData) := by
  rw [oxRegisterRenderCb, if_neg callable, found] at registered
  subst registered
  refine ⟨?_, rfl, ?_, ?_⟩
  · apply OxDisplay.unlinked_assignTo
    · exact OxDisplay.unlinked_assign unlinked cb (unlinked cb)
    · exact fun old last => last
  · exact OxDisplay.assignTo_sdlRenderer _ _ _
  · refine Eq.trans (OxDisplay.callback_assignTo_link _ _ fun old => ⟨rfl, rfl⟩) ?_
    exact display.callback_assign cb _

theorem oxDeregisterRenderCb_spec {display after : OxDisplay} (unlinked : display.Unlinked)
    (cb : RenderSlot) (deregistered : oxDeregisterRenderCb display cb = after) :
    after.Unlinked ∧
      after.firstRenderCb =
        (if display.firstRenderCb = some cb then none else display.firstRenderCb) ∧
      after.sdlRenderer = display.sdlRenderer ∧
      after.callback = Function.update display.callback cb (0, (display.callback cb).2) := by
  let freed := display.assign cb fun slot => { slot with f := 0 }
  have freedUnlinked : freed.Unlinked := OxDisplay.unlinked_assign unlinked cb (unlinked cb)
  let bypassed := freed.assignTo (freed.renderCbStore cb).prev fun slot =>
    { slot with next := none }
  have bypassedUnlinked : bypassed.Unlinked :=
    OxDisplay.unlinked_assignTo freedUnlinked _ fun old last => rfl
  have first : bypassed.firstRenderCb = display.firstRenderCb :=
    OxDisplay.assignTo_firstRenderCb _ _ _
  have callback : bypassed.callback =
      Function.update display.callback cb (0, (display.callback cb).2) := by
    have kept : bypassed.callback = freed.callback :=
      OxDisplay.callback_assignTo_link _ _ fun old => ⟨rfl, rfl⟩
    rw [kept]
    exact display.callback_assign cb fun slot => { slot with f := 0 }
  have shape : oxDeregisterRenderCb display cb =
      if bypassed.firstRenderCb = some cb then { bypassed with firstRenderCb := none }
      else bypassed := by
    have noNext : (freed.assignTo (freed.renderCbStore cb).next fun slot =>
        { slot with prev := (freed.renderCbStore cb).prev }) = freed := by
      rw [freedUnlinked cb]
      rfl
    simp only [oxDeregisterRenderCb]
    rw [noNext, freedUnlinked cb, bypassedUnlinked cb]
  have renderer : bypassed.sdlRenderer = display.sdlRenderer :=
    OxDisplay.assignTo_sdlRenderer _ _ _
  rw [← deregistered, shape, first]
  split
  · exact ⟨bypassedUnlinked, rfl, renderer, callback⟩
  · exact ⟨bypassedUnlinked, first, renderer, callback⟩

/-- Rendering calls the callback in the first slot, if there is one, and no other. -/
theorem oxiRenderAndPresent_spec {display : OxDisplay} (unlinked : display.Unlinked)
    (result : Nat → Bool) :
    oxiRenderAndPresent result display =
      match display.firstRenderCb with
      | none => .ok ([], false)
      | some cb =>
          if (display.callback cb).1 = 0 then .error .nullDereference
          else .ok ([(⟨(display.callback cb).1, display.sdlRenderer, (display.callback cb).2⟩,
            result 0)], !result 0) := by
  cases first : display.firstRenderCb with
  | none => simp only [oxiRenderAndPresent, first]; rfl
  | some cb =>
      have last := unlinked cb
      simp only [oxiRenderAndPresent, first, maxRenderCbs, renderLoop, last, OxDisplay.callback]
      rfl

end YakUnshorn
