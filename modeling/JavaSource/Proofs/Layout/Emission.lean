import JavaSource.Proofs.Layout.Items
import Mathlib.Data.List.Induction

namespace JavaSource

namespace Page

/-- A step in writing a page. -/
inductive Step where
  | line (text : String)
  | blank
  | deeper
  | shallower

/-- A page is written by steps and by whole fragments, in any order. A step back need not
    belong to a step that went deeper. -/
inductive Edit where
  | step (s : Step)
  | emit (fragments : List Fragment)

def take (page : Page) : Step → Page
  | .line text => page.line text
  | .blank => page.blank
  | .deeper => page.deeper
  | .shallower => page.shallower

/-- The page after the steps, in order. -/
def takeAll (page : Page) (steps : List Step) : Page :=
  steps.foldl take page

def apply (page : Page) : Edit → Page
  | .step s => page.take s
  | .emit fragments => page.emitAll fragments

/-- The page after the edits, in order. -/
def ofEdits (indent : Indent) (edits : List Edit) : Page :=
  edits.foldl apply (empty indent)

theorem takeAll_append (page : Page) (first second : List Step) :
    page.takeAll (first ++ second) = (page.takeAll first).takeAll second :=
  List.foldl_append

end Page

/-- The item further in by some levels. A blank line has no level. -/
def Item.nest (outer : Nat) : Item → Item
  | .blank => .blank
  | .line level text => .line (outer + level) text

/-- The line of an item behind some text, which a blank line is not given. -/
def Item.renderBehind (front : String) (indent : Indent) : Item → String
  | .blank => ""
  | .line level text => front ++ (Item.line level text).render indent

/-- An item further in is rendered behind the margin of the levels added. -/
theorem Item.render_nest (indent : Indent) (outer : Nat) (item : Item) :
    (item.nest outer).render indent = item.renderBehind (indent.margin outer) indent := by
  cases item with
  | blank => rfl
  | line level text => rw [nest, render, renderBehind, render, Indent.margin_add, String.append_assoc]

namespace Fragment

mutual

/-- The steps that writing a fragment consists of. -/
def steps : Fragment → List Page.Step
  | .line text => [.line text]
  | .blank => [.blank]
  | .block header body close =>
    .line header :: .deeper :: (stepsOfAll body ++ .shallower :: close.toList.map .line)
  | .indent body => .deeper :: (stepsOfAll body ++ [.shallower])

/-- The steps that write some fragments, in order. -/
def stepsOfAll : List Fragment → List Page.Step
  | [] => []
  | f :: fs => f.steps ++ stepsOfAll fs

end

mutual

/-- A fragment that starts further in has the same items further in. -/
theorem items_add (outer level : Nat) : ∀ f : Fragment,
    f.items (outer + level) = (f.items level).map (Item.nest outer)
  | .line text => rfl
  | .blank => rfl
  | .block header body none => by
    rw [items, Nat.add_assoc, itemsOfAll_add outer (level + 1) body, items, List.map_cons]
    rfl
  | .block header body (some close) => by
    rw [items, Nat.add_assoc, itemsOfAll_add outer (level + 1) body, items, List.map_cons, List.map_append]
    rfl
  | .indent body => itemsOfAll_add outer (level + 1) body

/-- Fragments laid out from further in have the same items, that much further in. -/
theorem itemsOfAll_add (outer level : Nat) : ∀ fragments : List Fragment,
    itemsOfAll (outer + level) fragments = (itemsOfAll level fragments).map (Item.nest outer)
  | [] => rfl
  | f :: fs => by
    rw [itemsOfAll, items_add outer level f, itemsOfAll_add outer level fs, itemsOfAll, List.map_append]

end

end Fragment

namespace Page

open Fragment (itemsOfAll steps stepsOfAll)

mutual

/-- To write a fragment is to take its steps. -/
theorem emit_eq_takeAll (page : Page) : ∀ f : Fragment, page.emit f = page.takeAll f.steps
  | .line text => rfl
  | .blank => rfl
  | .block header body close => by
    rw [emit, emitAll_eq_takeAll (page.line header).deeper body, steps, takeAll, takeAll,
      List.foldl_cons, List.foldl_cons, List.foldl_append]
    cases close <;> rfl
  | .indent body => by
    rw [emit, emitAll_eq_takeAll page.deeper body, steps, takeAll, takeAll, List.foldl_cons,
      List.foldl_append]
    rfl

/-- Writing fragments is a run of steps. -/
theorem emitAll_eq_takeAll (page : Page) :
    ∀ fragments : List Fragment, page.emitAll fragments = page.takeAll (stepsOfAll fragments)
  | [] => rfl
  | f :: fs => by
    rw [emitAll, emit_eq_takeAll page f, emitAll_eq_takeAll _ fs, stepsOfAll, takeAll_append]

end

/-- Whole fragments leave the level where it was. -/
theorem level_emitAll (page : Page) (fragments : List Fragment) :
    (page.emitAll fragments).level = page.level := by
  rw [emitAll_eq_append]
  rfl

/-- No edit changes how a level is indented. -/
theorem indent_ofEdits (indent : Indent) (edits : List Edit) : (ofEdits indent edits).indent = indent := by
  induction edits using List.reverseRecOn with
  | nil => rfl
  | append_singleton edits edit ih =>
    have hstep : ((ofEdits indent edits).apply edit).indent = (ofEdits indent edits).indent := by
      cases edit with
      | step s => cases s <;> rfl
      | emit fragments =>
        rw [apply, emitAll_eq_append]
        rfl
    rw [ofEdits, List.foldl_append]
    exact hstep.trans ih

/-- Each step back in a run is taken from below a floor, so that it does go back. -/
def StaysBelow (floor : Nat) (page : Page) (run : List Step) : Prop :=
  ∀ before after, run = before ++ .shallower :: after → floor < (page.takeAll before).level

namespace StaysBelow

variable {page : Page} {floor : Nat}

theorem nil : StaysBelow floor page [] := by
  intro before after h
  cases before <;> cases h

/-- A run stays below a floor if its first step does and the rest does from there.
    -/
theorem cons_iff {step : Step} {run : List Step} : StaysBelow floor page (step :: run) ↔
    (step = .shallower → floor < page.level) ∧ StaysBelow floor (page.take step) run := by
  constructor
  · intro h
    refine ⟨fun hstep => h [] run (by rw [hstep, List.nil_append]), ?_⟩
    intro before after hrun
    exact h (step :: before) after (by rw [hrun, List.cons_append])
  · rintro ⟨hstep, hrun⟩ before after h
    cases before with
    | nil => exact hstep (List.cons.inj h).1
    | cons first before =>
      obtain rfl := (List.cons.inj h).1
      exact hrun before after (List.cons.inj h).2

/-- A step that does not go back may be taken anywhere. -/
theorem cons {step : Step} {run : List Step} (hstep : step ≠ .shallower)
    (hrun : StaysBelow floor (page.take step) run) : StaysBelow floor page (step :: run) :=
  cons_iff.mpr ⟨fun h => absurd h hstep, hrun⟩

/-- Two runs that stay below a floor, one where the other ends, make a run that
    does. -/
theorem append {first second : List Step} (hfirst : StaysBelow floor page first)
    (hsecond : StaysBelow floor (page.takeAll first) second) :
    StaysBelow floor page (first ++ second) := by
  induction first generalizing page with
  | nil => exact hsecond
  | cons step first ih =>
    rw [cons_iff] at hfirst
    rw [List.cons_append, cons_iff]
    exact ⟨hfirst.1, ih hfirst.2 hsecond⟩

/-- The step back behind a body is taken from where the body started, which is below the
    step that went deeper in front of it. -/
theorem enclose {body : List Fragment} {rest : List Step} (hfloor : floor ≤ page.level)
    (hbody : StaysBelow floor page.deeper (stepsOfAll body))
    (hrest : ∀ after : Page, StaysBelow floor after rest) :
    StaysBelow floor page (.deeper :: (stepsOfAll body ++ .shallower :: rest)) := by
  have hlevel : (page.deeper.takeAll (stepsOfAll body)).level = page.level + 1 := by
    rw [← emitAll_eq_takeAll, level_emitAll]
    rfl
  refine cons nofun (append hbody (cons_iff.mpr ⟨fun _ => ?_, hrest _⟩))
  exact hlevel ▸ Nat.lt_succ_of_le hfloor

end StaysBelow

mutual

/-- The steps of a fragment never go back above the level it starts at. -/
theorem staysBelow_steps {page : Page} {floor : Nat} (hfloor : floor ≤ page.level) :
    ∀ f : Fragment, StaysBelow floor page f.steps
  | .line text => .cons nofun .nil
  | .blank => .cons nofun .nil
  | .block header body close => by
    have hbody : StaysBelow floor (page.line header).deeper (stepsOfAll body) :=
      staysBelow_stepsOfAll (Nat.le_succ_of_le hfloor) body
    have hclose (after : Page) : StaysBelow floor after (close.toList.map .line) := by
      cases close with
      | none => exact .nil
      | some text => exact .cons nofun .nil
    exact .cons nofun (.enclose hfloor hbody hclose)
  | .indent body => by
    have hbody : StaysBelow floor page.deeper (stepsOfAll body) :=
      staysBelow_stepsOfAll (Nat.le_succ_of_le hfloor) body
    exact .enclose hfloor hbody fun _ => .nil

theorem staysBelow_stepsOfAll {page : Page} {floor : Nat} (hfloor : floor ≤ page.level) :
    ∀ fragments : List Fragment, StaysBelow floor page (stepsOfAll fragments)
  | [] => .nil
  | f :: fs => by
    refine .append (staysBelow_steps hfloor f) (staysBelow_stepsOfAll ?_ fs)
    rw [← emit_eq_takeAll, emit_eq_append]
    exact hfloor

end

/-- However a page came about, fragments are written below its lines and leave its level
    alone, and no step back on the way is lost. What they add are the lines they have on an
    empty page, all but the blank ones behind the margin of the page. -/
theorem emitAll_ofEdits (indent : Indent) (edits : List Edit) (fragments : List Fragment) :
    let page := ofEdits indent edits
    let items := itemsOfAll 0 fragments
    (page.emitAll fragments).level = page.level ∧
    page.emitAll fragments = page.takeAll (stepsOfAll fragments) ∧
    StaysBelow page.level page (stepsOfAll fragments) ∧
    ((empty indent).emitAll fragments).lines = items.map (·.render indent) ∧
    (page.emitAll fragments).lines =
      page.lines ++ items.map (·.renderBehind (indent.margin page.level) indent) := by
  intro page items
  refine ⟨page.level_emitAll fragments, page.emitAll_eq_takeAll fragments,
    staysBelow_stepsOfAll (Nat.le_refl _) fragments, Fragment.linesIn_eq_map indent fragments, ?_⟩
  have hitems : itemsOfAll page.level fragments = items.map (Item.nest page.level) :=
    Fragment.itemsOfAll_add page.level 0 fragments
  have hlines : (itemsOfAll page.level fragments).map (·.render indent) =
      items.map (·.renderBehind (indent.margin page.level) indent) := by
    rw [hitems, List.map_map]
    exact List.map_congr_left fun item _ => item.render_nest indent page.level
  rw [emitAll_eq_append, append, indent_ofEdits, hlines]

/-- A blank line stays empty where an empty text gets the margin. -/
example : (ofEdits .tab [.step .shallower, .step .deeper,
    .emit [.block "f(" [.blank, .line ""] (some ")")]]).lines = ["\tf(", "", "\t\t", "\t)"] := by
  decide

end Page

end JavaSource
