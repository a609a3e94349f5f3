import Vcli.Core.Codec
import Vcli.Daemon.Materialize
import Vcli.Lib.Traverse

/-! The image references of a program, in the order they are materialized. What is done to a
program is what is done to that list, and the rest of the program stays. -/

namespace Vcli

def PredicateKind.images : PredicateKind → List String
  | .template image _ _ _ => [image]
  | _ => []

def PredicateKind.imageless : PredicateKind → PredicateKind
  | .template _ confidence region throttleMs => .template "" confidence region throttleMs
  | predicate => predicate

def Watch.images (watch : Watch) : List String :=
  match watch.when_ with
  | .inline predicate => predicate.images
  | .byName _ => []

def Program.images (program : Program) : List String :=
  (program.predicates.toList.flatMap fun e => e.2.images) ++ program.watches.flatMap Watch.images

def Program.imageless (program : Program) : Program :=
  program.mapPredicates PredicateKind.imageless

section Rewriting
variable {S E C : Type} (ref : String → Fallible S E C String)

def rewritePredicate : PredicateKind → Fallible S E C PredicateKind
  | .template image confidence region throttleMs => do
    let image ← ref image
    return .template image confidence region throttleMs
  | predicate => pure predicate

def rewriteWatch (watch : Watch) : Fallible S E C Watch :=
  match watch.when_ with
  | .inline predicate => do
    let predicate ← rewritePredicate ref predicate
    return { watch with when_ := .inline predicate }
  | .byName _ => pure watch

/-- The traversal of `materialize_template_assets`, whatever is done to a reference. -/
def rewriteProgram (program : Program) : Fallible S E C Program := do
  let predicates ← Fallible.each (fun e => do
    let predicate ← rewritePredicate ref e.2
    return (e.1, predicate)) program.predicates.toList
  let watches ← Fallible.each (rewriteWatch ref) program.watches
  return { program with predicates := Std.ExtTreeMap.ofList predicates, watches := watches }

theorem materializeProgram_eq (disk : Disk) (baseDir : Option String) (nowMs : UnixMs)
    (program : Program) : materializeProgram disk baseDir nowMs program =
      rewriteProgram (materializeImageRef disk baseDir nowMs) program := by
  have hpredicate : materializePredicate disk baseDir nowMs =
      rewritePredicate (materializeImageRef disk baseDir nowMs) := by
    funext predicate
    cases predicate <;> rfl
  have hwatch : materializeWatch disk baseDir nowMs =
      rewriteWatch (materializeImageRef disk baseDir nowMs) := by
    funext watch
    unfold materializeWatch rewriteWatch
    exact hpredicate ▸ rfl
  unfold materializeProgram rewriteProgram
  rw [hpredicate, hwatch]

open Fallible

theorem each_singleton (image : String) :
    each ref [image] = ref image >>= fun image => pure [image] := by
  rw [each, each]
  simp only [pure_bind']

theorem rewritePredicate_matches (predicate : PredicateKind) :
    Matches (fun p is => p.images = is ∧ p.imageless = predicate.imageless)
      (rewritePredicate ref predicate) (each ref predicate.images) := by
  cases predicate with
  | template image confidence region throttleMs =>
    rw [PredicateKind.images, each_singleton]
    refine matches_bind (.refl _) ?_
    rintro a _ rfl
    exact matches_pure ⟨rfl, rfl⟩
  | _ => exact matches_pure ⟨rfl, rfl⟩

theorem rewriteWatch_matches (watch : Watch) :
    Matches (fun w is => w.images = is ∧
        w.mapPredicates PredicateKind.imageless = watch.mapPredicates PredicateKind.imageless)
      (rewriteWatch ref watch) (each ref watch.images) := by
  obtain ⟨when_, steps, throttleMs, lifetime⟩ := watch
  cases when_ with
  | byName name => exact matches_pure ⟨rfl, rfl⟩
  | inline predicate =>
    refine (rewritePredicate_matches ref predicate).map_left ?_
    rintro p is ⟨himages, hrest⟩
    refine ⟨himages, ?_⟩
    simp only [Watch.mapPredicates, WatchWhen.mapPredicates, hrest]

theorem rewriteProgram_matches (program : Program) :
    Matches (fun p is => p.images = is ∧ p.imageless = program.imageless)
      (rewriteProgram ref program) (each ref program.images) := by
  rw [Program.images, each_append, rewriteProgram]
  have hpredicates : Matches
      (fun es is => (es.flatMap fun e => e.2.images) = is ∧
        (es.map fun e => (e.1, e.2.imageless)) =
          program.predicates.toList.map fun e => (e.1, e.2.imageless))
      (each (fun e : String × PredicateKind => do
        let predicate ← rewritePredicate ref e.2
        return (e.1, predicate)) program.predicates.toList)
      (each ref (program.predicates.toList.flatMap fun e => e.2.images)) := by
    refine matches_each fun e _ => (rewritePredicate_matches ref e.2).map_left ?_
    rintro p is ⟨himages, hrest⟩
    exact ⟨himages, by rw [hrest]⟩
  have hwatches := matches_each fun w (_ : w ∈ program.watches) => rewriteWatch_matches ref w
  refine matches_bind hpredicates fun es is hes => matches_bind hwatches fun ws js hws => ?_
  apply matches_pure
  have hnames : es.map Prod.fst = program.predicates.toList.map Prod.fst := by
    have hfst := congrArg (List.map Prod.fst) hes.2
    simpa only [List.map_map, Function.comp_def] using hfst
  -- the predicates keep their names, so that the list is in the order of the map already
  have hlist : (Std.ExtTreeMap.ofList es : Predicates).toList = es := by
    apply Traverse.toList_ofList
    have hkeys := program.predicates.ordered_keys_toList
    rw [← List.pairwise_map (f := Prod.fst) (R := fun a b => compare a b = .lt)] at hkeys ⊢
    rwa [hnames]
  constructor
  · rw [Program.images, hlist, hes.1, hws.1]
  · have hmap : (Std.ExtTreeMap.ofList es : Predicates).map (fun _ q => q.imageless) =
        program.predicates.map fun _ q => q.imageless := by
      rw [← Std.ExtTreeMap.toList_inj, Std.ExtTreeMap.toList_map, Std.ExtTreeMap.toList_map, hlist]
      exact hes.2
    simp only [Program.imageless, Program.mapPredicates, hmap, hws.2]

theorem rewriteProgram_refines {T D : Type} {ref' : String → Fallible T E D String} {π : S → T}
    (h : ∀ image, Refines π (ref image) (ref' image)) (program : Program) :
    Refines π (rewriteProgram ref program) (rewriteProgram ref' program) := by
  have hpredicate : ∀ p, Refines π (rewritePredicate ref p) (rewritePredicate ref' p) := by
    intro p
    cases p with
    | template image confidence region throttleMs =>
      exact refines_bind (h image) fun _ => refines_pure _
    | _ => exact refines_pure _
  have hwatch : ∀ w, Refines π (rewriteWatch ref w) (rewriteWatch ref' w) := by
    intro w
    unfold rewriteWatch
    split
    · exact refines_bind (hpredicate _) fun _ => refines_pure _
    · exact refines_pure w
  unfold rewriteProgram
  apply refines_bind
  · apply refines_each
    intro e
    exact refines_bind (hpredicate e.2) fun _ => refines_pure _
  · intro predicates
    exact refines_bind (refines_each hwatch _) fun _ => refines_pure _

end Rewriting

section Extensionality

theorem PredicateKind.length_images {p q : PredicateKind} (h : p.imageless = q.imageless) :
    p.images.length = q.images.length := by
  cases p <;> cases q <;> first | rfl | exact nomatch h

theorem PredicateKind.ext_images {p q : PredicateKind} (h : p.imageless = q.imageless)
    (himages : p.images = q.images) : p = q := by
  cases p with
  | template image confidence region throttleMs =>
    cases q with
    | template image' confidence' region' throttleMs' =>
      obtain rfl := (List.cons.inj himages).1
      obtain ⟨_, rfl, rfl, rfl⟩ := PredicateKind.template.inj h
      rfl
    | _ => exact nomatch h
  | _ =>
    cases q with
    | template image' confidence' region' throttleMs' => exact nomatch h
    | _ => exact h

theorem Watch.images_of_imageless {v w : Watch}
    (h : v.mapPredicates PredicateKind.imageless = w.mapPredicates PredicateKind.imageless) :
    v.images.length = w.images.length ∧ (v.images = w.images → v = w) := by
  obtain ⟨vwhen, vsteps, vthrottle, vlifetime⟩ := v
  obtain ⟨wwhen, wsteps, wthrottle, wlifetime⟩ := w
  obtain ⟨hwhen, rfl, rfl, rfl⟩ := Watch.mk.inj h
  cases vwhen with
  | byName name =>
    cases wwhen with
    | byName name' =>
      obtain rfl := WatchWhen.byName.inj hwhen
      exact ⟨rfl, fun _ => rfl⟩
    | inline q => exact nomatch hwhen
  | inline p =>
    cases wwhen with
    | byName name' => exact nomatch hwhen
    | inline q =>
      have hpq := WatchWhen.inline.inj hwhen
      refine ⟨PredicateKind.length_images hpq, fun himages => ?_⟩
      rw [PredicateKind.ext_images hpq himages]

theorem Program.ext_images {p q : Program} (h : p.imageless = q.imageless)
    (himages : p.images = q.images) : p = q := by
  have hpredicates : p.predicates.toList.map (fun e => (e.1, e.2.imageless)) =
      q.predicates.toList.map fun e => (e.1, e.2.imageless) := by
    have hmap := congrArg (fun r : Program => r.predicates.toList) h
    simpa only [Program.imageless, Program.mapPredicates, Std.ExtTreeMap.toList_map] using hmap
  have hwatches : p.watches.map (Watch.mapPredicates PredicateKind.imageless) =
      q.watches.map (Watch.mapPredicates PredicateKind.imageless) :=
    congrArg Program.watches h
  have hlength : ∀ a a' : String × PredicateKind, (a.1, a.2.imageless) = (a'.1, a'.2.imageless) →
      a.2.images.length = a'.2.images.length :=
    fun a a' ha => PredicateKind.length_images (congrArg Prod.snd ha)
  obtain ⟨hnamed, hinline⟩ := List.append_inj himages
    (Traverse.length_flatMap_eq (k := fun e => e.2.images) hlength hpredicates)
  have hsame : p.predicates = q.predicates := by
    rw [← Std.ExtTreeMap.toList_inj]
    refine Traverse.eq_of_parts hlength ?_ hpredicates hnamed
    intro a a' ha hk
    obtain ⟨hname, hpredicate⟩ := Prod.mk.inj ha
    exact Prod.ext hname (PredicateKind.ext_images hpredicate hk)
  have hsame' : p.watches = q.watches :=
    Traverse.eq_of_parts (fun a a' ha => (Watch.images_of_imageless ha).1)
      (fun a a' ha hk => (Watch.images_of_imageless ha).2 hk) hwatches hinline
  obtain ⟨hversion, hname, hid, htrigger, -, -, hbody, hcomplete, hfail, htimeout, hlabels,
    hpriority⟩ := Program.mk.inj h
  cases p
  cases q
  simp only at hversion hname hid htrigger hbody hcomplete hfail htimeout hlabels hpriority hsame hsame'
  rw [hversion, hname, hid, htrigger, hsame, hsame', hbody, hcomplete, hfail, htimeout, hlabels,
    hpriority]

end Extensionality

end Vcli
