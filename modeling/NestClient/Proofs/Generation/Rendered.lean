import NestClient.Proofs.Extract.Imports
import NestClient.Proofs.Generation.Filled
import NestClient.Proofs.Project

/-! The files that are rendered for the plans of a workspace.

* `render_ok`: where a client's file goes, and which class it declares.
* `reads_render`, `placed_of_rendered`: each plan has its file, which goes below the output directory.
* `map_rendered`: the rendered clients stand in the order of their plans. -/

namespace NestClient

open Disk NestClient.Action

variable {d d' : Disk} {config : Config} {g : EndpointGroup} {endpoints : List Endpoint}
  {f : GeneratedFile}

/-- The text has the head of a client's class as one of its lines. -/
def Declares (contents className : Text) : Prop :=
  ∃ before after, contents = Client.unlines
    (before ++ ("export class ".toList ++ className ++ " extends BaseApiService \x7b".toList) :: after)

/-- The file is that of the client of a controller. -/
structure IsClientOf (g : EndpointGroup) (f : GeneratedFile) : Prop where
  path : f.path = Client.filePath g
  className : f.className = clientClassName g.name
  declares : Declares f.contents f.className

theorem declares_of_classLines (before after : List Text) :
    Declares (Client.unlines (before ++ Client.classLines g ++ after)) (clientClassName g.name) := by
  refine ⟨before ++ (Client.classLines g).take 8, (Client.classLines g).drop 9 ++ after, ?_⟩
  rw [List.append_assoc, List.append_assoc]
  rfl

theorem render_ok (h : Client.render config g endpoints = .ok f) : IsClientOf g f := by
  obtain ⟨_, _, -, -, rfl⟩ := Client.exists_of_render h
  refine ⟨rfl, rfl, ?_⟩
  rw [List.append_assoc _ _ [_]]
  exact declares_of_classLines _ _

/-- A client begins with an import. -/
theorem head?_of_render_ok (h : Client.render config g endpoints = .ok f) :
    f.contents.head? = some 'i' := by
  obtain ⟨_, _, -, -, rfl⟩ := Client.exists_of_render h
  rfl

/-! ## Files below the output directory -/

theorem EndpointGroup.Placed.file (hg : g.Placed) (h : f.path = Client.filePath g) : f.Placed := by
  obtain ⟨names, hnames, hfolder⟩ := hg.folder
  have hlast : IsEntryName (clientFileName (clientClassName g.name)) :=
    isEntryName_clientFileName fun hslash => hg.name (mem_of_mem_clientClassName (by decide) hslash)
  refine ⟨names ++ [clientFileName (clientClassName g.name)], by simp, ?_, ?_⟩
  · intro n hn
    rcases List.mem_append.1 hn with hn | hn
    · exact hnames n hn
    · rw [List.mem_singleton.1 hn]
      exact hlast
  · rw [h]
    exact Client.ofText_filePath hg.name hfolder fun n hn => (hnames n hn).toIsName

def Plan.rendered? (config : Config) (plan : Plan) : Option (GeneratedFile × ClientDescriptor) :=
  (Client.render config plan.group plan.endpoints).toOption.map fun f =>
    (f, Client.describe config f plan.endpoints.length)

theorem reads_render (plan : Plan) :
    Reads d d' (plan.render config) (plan.render config) fun r => plan.rendered? config = some r := by
  unfold Plan.render Plan.rendered?
  cases Client.render config plan.group plan.endpoints with
  | error fault => exact reads_throw _
  | ok f => exact (reads_report _).bind fun _ _ => reads_pure rfl

theorem render_of_rendered {plan : Plan} {r : GeneratedFile × ClientDescriptor}
    (h : plan.rendered? config = some r) :
    Client.render config plan.group plan.endpoints = .ok r.1 ∧
      r.2 = Client.describe config r.1 plan.endpoints.length := by
  obtain ⟨f, hrender, rfl⟩ := Option.map_eq_some_iff.1 h
  cases hresult : Client.render config plan.group plan.endpoints with
  | error fault =>
    rw [hresult] at hrender
    cases hrender
  | ok g =>
    rw [hresult] at hrender
    obtain rfl := Option.some.inj hrender
    exact ⟨rfl, rfl⟩

theorem isClientOf_of_rendered {plan : Plan} {r : GeneratedFile × ClientDescriptor}
    (h : plan.rendered? config = some r) : IsClientOf plan.group r.1 :=
  render_ok (render_of_rendered h).1

section

variable {plans : List Plan} {rendered : List (GeneratedFile × ClientDescriptor)}
  (hrendered : plans.map (Plan.rendered? config) = rendered.map some)

include hrendered

theorem exists_plan {r : GeneratedFile × ClientDescriptor} (hr : r ∈ rendered) :
    ∃ plan ∈ plans, plan.rendered? config = some r := by
  have hsome : some r ∈ rendered.map some := List.mem_map_of_mem hr
  rw [← hrendered] at hsome
  obtain ⟨plan, hplan, heq⟩ := List.mem_map.1 hsome
  exact ⟨plan, hplan, heq⟩

theorem exists_rendered {plan : Plan} (hplan : plan ∈ plans) :
    ∃ r ∈ rendered, plan.rendered? config = some r := by
  have hmem : plan.rendered? config ∈ plans.map (Plan.rendered? config) := List.mem_map_of_mem hplan
  rw [hrendered] at hmem
  obtain ⟨r, hr, heq⟩ := List.mem_map.1 hmem
  exact ⟨r, hr, heq.symm⟩

theorem placed_of_rendered (hplans : ∀ plan ∈ plans, plan.group.Placed) {f : GeneratedFile}
    (hf : f ∈ rendered.map (·.1)) : f.Placed := by
  obtain ⟨r, hr, rfl⟩ := List.mem_map.1 hf
  obtain ⟨plan, hplan, heq⟩ := exists_plan hrendered hr
  exact (hplans plan hplan).file (isClientOf_of_rendered heq).path

/-- What is known of each client from its plan is known of all of them in order. -/
theorem map_rendered {α : Type} {φ : Plan → α} {ψ : GeneratedFile × ClientDescriptor → α}
    (h : ∀ plan r, plan.rendered? config = some r → ψ r = φ plan) :
    rendered.map ψ = plans.map φ := by
  induction plans generalizing rendered with
  | nil =>
    rw [List.map_nil, eq_comm, List.map_eq_nil_iff] at hrendered
    rw [hrendered]
    rfl
  | cons plan plans ih =>
    cases rendered with
    | nil => cases hrendered
    | cons r rendered =>
      obtain ⟨hfirst, hrest⟩ := List.cons.inj hrendered
      rw [List.map_cons, List.map_cons, h plan r hfirst, ih hrest]

end

end NestClient
