import Gqlforge.AuthPlanner
import Gqlforge.EvalReach
import Mathlib.Data.List.Forall2

namespace Gqlforge.PlannedAuth

open Resolvers Eval EvalReach AuthPlanner

section

variable (removed : Auth → Prop)

inductive Planned : IR → IR → Prop
  | dynamic (value : Templates.DynamicValue) : Planned (.dynamic value) (.dynamic value)
  | io (io : Io) : Planned (.io io) (.io io)
  | cache (cache : Cache) : Planned (.cache cache) (.cache cache)
  | contextPath (path : List String) : Planned (.contextPath path) (.contextPath path)
  | service (sdl : String) : Planned (.service sdl) (.service sdl)
  | path {input input' : IR} (path : List String) (h : Planned input input') :
    Planned (.path input path) (.path input' path)
  | map {input input' : IR} (map : List (String × String)) (h : Planned input input') :
    Planned (.map input map) (.map input' map)
  | discriminate {expr expr' : IR} (discriminator : Discriminator) (h : Planned expr expr') :
    Planned (.discriminate discriminator expr) (.discriminate discriminator expr')
  | pipe {first first' second second' : IR} (h : Planned first first') (h' : Planned second second') :
    Planned (.pipe first second) (.pipe first' second')
  | protect {expr expr' : IR} (auth : Auth) (accessExpr : Option AccessExpr) (h : Planned expr expr') :
    Planned (.protect auth accessExpr expr) (.protect auth accessExpr expr')
  | removed {expr expr' : IR} (auth : Auth) (hr : removed auth) (h : Planned expr expr') :
    Planned (.protect auth none expr) expr'
  | merge {irs irs' : List IR} (hlength : irs.length = irs'.length)
    (h : ∀ i h₁ h₂, Planned (irs.get ⟨i, h₁⟩) (irs'.get ⟨i, h₂⟩)) : Planned (.merge irs) (.merge irs')
  | entity {map map' : List (String × IR)} (hlength : map.length = map'.length)
    (hname : ∀ i h₁ h₂, (map.get ⟨i, h₁⟩).1 = (map'.get ⟨i, h₂⟩).1)
    (h : ∀ i h₁ h₂, Planned (map.get ⟨i, h₁⟩).2 (map'.get ⟨i, h₂⟩).2) : Planned (.entity map) (.entity map')

variable {removed}

theorem Planned.merge_of {irs irs' : List IR} (h : List.Forall₂ (Planned removed) irs irs') :
    Planned removed (.merge irs) (.merge irs') := by
  obtain ⟨hlength, hall⟩ := List.forall₂_iff_get.mp h
  exact .merge hlength hall

theorem Planned.entity_of {map map' : List (String × IR)}
    (h : List.Forall₂ (fun entry entry' => entry.1 = entry'.1 ∧ Planned removed entry.2 entry'.2) map map') :
    Planned removed (.entity map) (.entity map') := by
  obtain ⟨hlength, hall⟩ := List.forall₂_iff_get.mp h
  exact .entity hlength (fun i h₁ h₂ => (hall i h₁ h₂).1) fun i h₁ h₂ => (hall i h₁ h₂).2

mutual

theorem planned_refl : ∀ ir, Planned removed ir ir
  | .dynamic value => .dynamic value
  | .io io => .io io
  | .cache cache => .cache cache
  | .contextPath path => .contextPath path
  | .service sdl => .service sdl
  | .path input path => .path path (planned_refl input)
  | .map input map => .map map (planned_refl input)
  | .discriminate discriminator expr => .discriminate discriminator (planned_refl expr)
  | .pipe first second => .pipe (planned_refl first) (planned_refl second)
  | .protect auth accessExpr expr => .protect auth accessExpr (planned_refl expr)
  | .merge irs => .merge_of (plannedAll_refl irs)
  | .entity map => .entity_of (plannedEntries_refl map)

theorem plannedAll_refl : ∀ irs, List.Forall₂ (Planned removed) irs irs
  | [] => .nil
  | ir :: rest => .cons (planned_refl ir) (plannedAll_refl rest)

theorem plannedEntries_refl : ∀ map : List (String × IR),
    List.Forall₂ (fun entry entry' => entry.1 = entry'.1 ∧ Planned removed entry.2 entry'.2) map map
  | [] => .nil
  | (_, ir) :: rest => .cons ⟨rfl, planned_refl ir⟩ (plannedEntries_refl rest)

end

mutual

theorem updateIr_planned : ∀ ir, (∀ auth ∈ (updateIr ir).2, removed auth) → Planned removed ir (updateIr ir).1
  | .path input path, h => by
    rw [updateIr]
    exact .path path (updateIr_planned input h)
  | .discriminate discriminator expr, h => by
    rw [updateIr]
    exact .discriminate discriminator (updateIr_planned expr h)
  | .protect auth none expr, h => by
    rw [updateIr] at h ⊢
    exact .removed auth (h auth List.mem_cons_self)
      (updateIr_planned expr fun auth' ha => h auth' (List.mem_cons_of_mem _ ha))
  | .protect auth (some accessExpr) expr, h => by
    rw [updateIr]
    exact .protect auth (some accessExpr) (updateIr_planned expr h)
  | .pipe first second, h => by
    rw [updateIr] at h ⊢
    exact .pipe (updateIr_planned first fun auth ha => h auth (List.mem_append_left _ ha))
      (updateIr_planned second fun auth ha => h auth (List.mem_append_right _ ha))
  | .merge irs, h => by
    rw [updateIr]
    exact .merge_of (updateIrs_planned irs h)
  | .dynamic _, _ | .io _, _ | .cache _, _ | .contextPath _, _ | .service _, _ | .map _ _, _ | .entity _, _ =>
    planned_refl _

theorem updateIrs_planned : ∀ irs, (∀ auth ∈ (updateIrs irs).2, removed auth) →
    List.Forall₂ (Planned removed) irs (updateIrs irs).1
  | [], _ => .nil
  | ir :: rest, h => by
    rw [updateIrs] at h ⊢
    exact .cons (updateIr_planned ir fun auth ha => h auth (List.mem_append_left _ ha))
      (updateIrs_planned rest fun auth ha => h auth (List.mem_append_right _ ha))

end

end

mutual

def erase : IR → IR
  | .protect _ _ expr => erase expr
  | .path input path => .path (erase input) path
  | .map input map => .map (erase input) map
  | .discriminate discriminator expr => .discriminate discriminator (erase expr)
  | .pipe first second => .pipe (erase first) (erase second)
  | .merge irs => .merge (eraseAll irs)
  | .entity map => .entity (eraseEntries map)
  | ir => ir

def eraseAll : List IR → List IR
  | [] => []
  | ir :: rest => erase ir :: eraseAll rest

def eraseEntries : List (String × IR) → List (String × IR)
  | [] => []
  | (name, ir) :: rest => (name, erase ir) :: eraseEntries rest

end

/-- The checks that stay around a part of a resolver, in their order; those that do not are removed plain ones. -/
inductive Kept (removed : Auth → Prop) : List Guard → List Guard → Prop
  | nil : Kept removed [] []
  | kept {guards guards' : List Guard} (guard : Guard) (h : Kept removed guards guards') :
    Kept removed (guard :: guards) (guard :: guards')
  | removed {guards guards' : List Guard} (auth : Auth) (hr : removed auth) (h : Kept removed guards guards') :
    Kept removed ((auth, none) :: guards) guards'

structure NodeKept (removed : Auth → Prop) (node node' : Node) : Prop where
  position : node'.position = node.position
  ir : erase node'.ir = erase node.ir
  guards : Kept removed node.guards node'.guards

section

variable {removed : Auth → Prop}

theorem Kept.append {first first' second second' : List Guard} (h : Kept removed first first')
    (h' : Kept removed second second') : Kept removed (first ++ second) (first' ++ second') := by
  induction h with
  | nil => exact h'
  | kept guard _ ih => exact .kept guard ih
  | removed auth hr _ ih => exact .removed auth hr ih

theorem eraseAll_of_forall₂ {irs irs' : List IR} (h : List.Forall₂ (fun ir ir' => erase ir' = erase ir) irs irs') :
    eraseAll irs' = eraseAll irs := by
  induction h with
  | nil => rfl
  | cons hfirst _ ih => rw [eraseAll, eraseAll, hfirst, ih]

theorem eraseEntries_of_forall₂ {map map' : List (String × IR)}
    (h : List.Forall₂ (fun entry entry' => entry.1 = entry'.1 ∧ erase entry'.2 = erase entry.2) map map') :
    eraseEntries map' = eraseEntries map := by
  induction h with
  | nil => rfl
  | cons hfirst _ ih => rw [eraseEntries, eraseEntries, hfirst.1, hfirst.2, ih]

theorem erase_planned {ir ir' : IR} (h : Planned removed ir ir') : erase ir' = erase ir := by
  induction h with
  | dynamic | io | cache | contextPath | service => rfl
  | path _ _ ih => rw [erase, erase, ih]
  | map _ _ ih => rw [erase, erase, ih]
  | discriminate _ _ ih => rw [erase, erase, ih]
  | pipe _ _ ih ih' => rw [erase, erase, ih, ih']
  | protect _ _ _ ih => rw [erase, erase, ih]
  | removed _ _ _ ih => rw [ih, erase]
  | merge hlength _ ih => rw [erase, erase, eraseAll_of_forall₂ (List.forall₂_iff_get.mpr ⟨hlength, ih⟩)]
  | entity hlength hname _ ih =>
    rw [erase, erase, eraseEntries_of_forall₂ (List.forall₂_iff_get.mpr
      ⟨hlength, fun i h₁ h₂ => ⟨hname i h₁ h₂, ih i h₁ h₂⟩⟩)]

abbrev NodesKept (removed : Auth → Prop) (ir ir' : IR) : Prop :=
  ∀ position guards guards', Kept removed guards guards' →
    List.Forall₂ (NodeKept removed) (nodes position guards ir) (nodes position guards' ir')

theorem nodesAll_kept {irs irs' : List IR} (h : List.Forall₂ (NodesKept removed) irs irs') (position : List Step)
    (guards guards' : List Guard) (hkept : Kept removed guards guards') (index : Nat) :
    List.Forall₂ (NodeKept removed) (nodesAll position guards index irs) (nodesAll position guards' index irs') := by
  induction h generalizing index with
  | nil => exact .nil
  | cons hfirst _ ih =>
    rw [nodesAll, nodesAll]
    exact List.rel_append (hfirst _ _ _ hkept) (ih (index + 1))

theorem nodesEntries_kept {map map' : List (String × IR)}
    (h : List.Forall₂ (fun entry entry' => NodesKept removed entry.2 entry'.2) map map') (position : List Step)
    (guards guards' : List Guard) (hkept : Kept removed guards guards') (index : Nat) :
    List.Forall₂ (NodeKept removed) (nodesEntries position guards index map)
      (nodesEntries position guards' index map') := by
  induction h generalizing index with
  | nil => exact .nil
  | cons hfirst _ ih =>
    rw [nodesEntries, nodesEntries]
    exact List.rel_append (hfirst _ _ _ hkept) (ih (index + 1))

theorem nodes_planned {ir ir' : IR} (h : Planned removed ir ir') : NodesKept removed ir ir' := by
  have hsame {ir ir' : IR} (h : Planned removed ir ir') (position : List Step) (guards guards' : List Guard)
      (hkept : Kept removed guards guards') : NodeKept removed ⟨position, guards, ir⟩ ⟨position, guards', ir'⟩ :=
    ⟨rfl, erase_planned h, hkept⟩
  induction h with
  | dynamic | io | cache | contextPath | service =>
    intro position guards guards' hkept
    exact .cons ⟨rfl, rfl, hkept⟩ .nil
  | path path h ih | map map h ih | discriminate discriminator h ih =>
    intro position guards guards' hkept
    exact .cons (hsame (by constructor; exact h) position _ _ hkept) (ih _ _ _ hkept)
  | pipe h h' ih ih' =>
    intro position guards guards' hkept
    exact .cons (hsame (.pipe h h') position _ _ hkept) (List.rel_append (ih _ _ _ hkept) (ih' _ _ _ hkept))
  | protect auth accessExpr _ ih =>
    intro position guards guards' hkept
    exact ih _ _ _ (hkept.append (.kept _ .nil))
  | removed auth hr _ ih =>
    intro position guards guards' hkept
    have hfewer := hkept.append (.removed auth hr .nil)
    rw [List.append_nil] at hfewer
    exact ih _ _ _ hfewer
  | merge hlength h ih =>
    intro position guards guards' hkept
    refine .cons (hsame (.merge hlength h) position _ _ hkept) ?_
    exact nodesAll_kept (List.forall₂_iff_get.mpr ⟨hlength, ih⟩) position _ _ hkept 0
  | entity hlength hname h ih =>
    intro position guards guards' hkept
    refine .cons (hsame (.entity hlength hname h) position _ _ hkept) ?_
    exact nodesEntries_kept (List.forall₂_iff_get.mpr ⟨hlength, ih⟩) position _ _ hkept 0

end

end Gqlforge.PlannedAuth
