import Understudy.Proofs.Delivery.AllOrNone
import Understudy.Proofs.File.Path

/-! # Every document delivered

The header and the source of the companions never go to one place, because their paths differ in the
extension. Nothing keeps the source of the mocks from the place of either: it comes first, so it is
lost exactly then.
-/

namespace Understudy

/-! ## Distinct documents -/

namespace Session

variable (session : Session)

open Document

theorem heading_append_ne {summary first second : String}
    (h : first.toList.take 10 ≠ second.toList.take 10) :
    heading summary ++ first ≠ heading summary ++ second := by
  intro hsame
  rw [← String.toList_inj, String.toList_append, String.toList_append] at hsame
  rw [List.append_cancel_left hsame] at h
  exact h rfl

theorem take_mockSupport (rest : String) :
    (mockSupport ++ rest).toList.take 10 = "#include <".toList := by
  rw [String.toList_append]
  rfl

/-- What follows the heading of the mocks names the input, not the mock support. -/
theorem take_includeInput (asCpp : Bool) (header rest : String) :
    (includeInput asCpp header ++ rest).toList.take 10 ≠ "#include <".toList := by
  rw [String.toList_append]
  cases asCpp <;> simp [includeInput, includeLine, String.toList_append]

theorem mockSource_ne_companionHeader : session.mockSource ≠ session.companionHeader := by
  unfold mockSource companionHeader
  simp only [String.append_assoc]
  refine heading_append_ne ?_
  rw [take_mockSupport]
  exact take_includeInput _ _ _

theorem mockSource_ne_companionSource (header : String) :
    session.mockSource ≠ session.companionSource header := by
  unfold mockSource companionSource
  simp only [String.append_assoc]
  refine heading_append_ne ?_
  rw [take_mockSupport]
  exact take_includeInput _ _ _

end Session

/-! ## Distinct destinations -/

/-- A path has both extensions replaced alike, unless it has no file name to put them on. -/
theorem Path.withExtension_cases (path : Path) :
    (∀ extension, path.withExtension extension = path.dropExtension) ∧
        path.dropExtension.fileName? = none ∨
      ∃ front, ∀ extension, path.withExtension extension = { text := front ++ extension } := by
  unfold withExtension
  dsimp only
  split
  next hname => exact .inl ⟨fun _ => rfl, hname⟩
  next name hname => exact .inr ⟨_, fun _ => rfl⟩

theorem Path.exists_join (path : Path) :
    ∃ front, ∀ name, path.join name = { text := front ++ name } := by
  unfold join
  split
  · exact ⟨path.text, fun name => rfl⟩
  · exact ⟨path.text ++ "/", fun name => rfl⟩

namespace Destination

/-- Header and source go to standard output, or to files whose paths differ in the extension only,
or to one path that has no file name. -/
theorem ofCompanionOption_cases (stem option : String) (isDirectory : Bool) :
    ofCompanionOption stem option isDirectory = (standardOutput, standardOutput) ∨
      (∃ path : Path, path.fileName? = none ∧
        ofCompanionOption stem option isDirectory = (file path, file path)) ∨
      ∃ front, ofCompanionOption stem option isDirectory =
        (file { text := front ++ "hpp" }, file { text := front ++ "cpp" }) := by
  unfold ofCompanionOption
  dsimp only
  split
  · exact .inl rfl
  split
  · obtain ⟨front, hjoin⟩ := Path.exists_join { text := option }
    refine .inr (.inr ⟨front ++ (stem ++ "_expect."), ?_⟩)
    rw [hjoin, hjoin, String.append_assoc, String.append_assoc, String.append_assoc,
      String.append_assoc]
    rfl
  · rcases Path.withExtension_cases { text := option } with ⟨hsame, hname⟩ | ⟨front, hfront⟩
    · rw [hsame, hsame]
      exact .inr (.inl ⟨_, hname, rfl⟩)
    · rw [hfront, hfront]
      exact .inr (.inr ⟨front, rfl⟩)

/-- Where both can be put, header and source go to different places. -/
theorem ne_of_ofCompanionOption {stem option : String} {isDirectory : Bool} {header source : Path}
    (h : ofCompanionOption stem option isDirectory = (file header, file source))
    {store : FileStore} {place other : Location} (hheader : store.target? header = some place)
    (hsource : store.target? source = some other) : place ≠ other := by
  rcases ofCompanionOption_cases stem option isDirectory with hout | ⟨path, hname, hpath⟩ |
    ⟨front, hfront⟩
  · rw [hout] at h
    cases h
  · rw [hpath] at h
    cases h
    exact absurd hname (FileStore.fileName?_of_target? hheader)
  · rw [hfront] at h
    cases h
    exact FileStore.ne_of_locate_append (by decide) (by decide) (by decide)
      (FileStore.target?_eq_some_iff.mp hheader).1 (FileStore.target?_eq_some_iff.mp hsource).1

end Destination

theorem OutputPaths.exists_resolve {input : Path} {mock? companions? : Option String}
    {disk after : Disk} {paths : OutputPaths}
    (h : disk.run (resolve input mock? companions?) = (paths, after)) :
    ∃ mockInto companionsInto, paths =
      { mock? := mock?.map fun option => Destination.ofMockOption input.stem option mockInto
        companions? := companions?.map fun option =>
          Destination.ofCompanionOption input.stem option companionsInto } := by
  obtain ⟨mockInto, _, -, h⟩ := Disk.run_bind_eq_iff.mp h
  obtain ⟨companionsInto, _, -, h⟩ := Disk.run_bind_eq_iff.mp h
  cases h
  exact ⟨mockInto, companionsInto, rfl⟩

namespace OutputPaths

variable {paths : OutputPaths}

/-- The mocks do not go where the header or the source of the companions goes. -/
def MocksApart (paths : OutputPaths) (store : FileStore) : Prop :=
  ∀ mock, paths.mockFile? = some mock → ∀ header source,
    paths.companionFiles? = some (header, source) →
      store.locate mock ≠ store.locate header ∧ store.locate mock ≠ store.locate source

/-- Options that resolve send both companions to files, or none. -/
theorem companions_cases {input : Path} {mock? companions? : Option String} {disk after : Disk}
    (h : disk.run (resolve input mock? companions?) = (paths, after)) :
    (paths.companionFiles? = none ∧ ∀ pair, paths.companions? = some pair →
        pair = (.standardOutput, .standardOutput)) ∨
      ∃ header source, paths.companions? = some (.file header, .file source) ∧
        ∀ {store : FileStore} {place other : Location}, store.target? header = some place →
          store.target? source = some other → place ≠ other := by
  obtain ⟨mockInto, companionsInto, rfl⟩ := exists_resolve h
  cases companions? with
  | none => exact .inl ⟨rfl, fun pair hpair => by cases hpair⟩
  | some option =>
      have hcases := Destination.ofCompanionOption_cases input.stem option companionsInto
      rcases hcases with hout | ⟨path, -, hpath⟩ | ⟨front, hfront⟩
      · refine .inl ⟨?_, ?_⟩
        · rw [companionFiles?, Option.map_some, hout]
          rfl
        · intro pair hpair
          rw [← hout]
          exact (Option.some.inj hpair).symm
      · exact .inr ⟨path, path, congrArg some hpath, Destination.ne_of_ofCompanionOption hpath⟩
      · exact .inr ⟨_, _, congrArg some hfront, Destination.ne_of_ofCompanionOption hfront⟩

end OutputPaths

namespace Session

variable {session : Session} {paths : OutputPaths} {disk after : Disk}

def mockFiles (session : Session) (paths : OutputPaths) : List (Path × String) :=
  paths.mockFile?.toList.map fun mock => (mock, session.mockSource)

theorem toFiles_documents_of_files {header source : Path}
    (h : paths.companions? = some (.file header, .file source)) :
    Delivery.toFiles (session.documents paths) =
      session.mockFiles paths ++ [(header, session.companionHeader),
        (source, session.companionSource (session.headerName (.file header)))] := by
  obtain ⟨mock?, companions?⟩ := paths
  cases h
  rcases mock? with _ | _ | mock <;> rfl

theorem toFiles_documents_of_none
    (h : ∀ pair, paths.companions? = some pair → pair = (.standardOutput, .standardOutput)) :
    Delivery.toFiles (session.documents paths) = session.mockFiles paths := by
  obtain ⟨mock?, companions?⟩ := paths
  cases companions? with
  | none => rcases mock? with _ | _ | mock <;> rfl
  | some pair =>
      cases h pair rfl
      rcases mock? with _ | _ | mock <;> rfl

/-- After a session that succeeds, a file holds a text exactly when the documents, written in order,
leave that text at its place. -/
theorem read_iff_deposit (hwrite : disk.run (session.write paths) = (.ok (), after)) {path : Path}
    {place : Location} {text : String} (hplace : disk.store.target? path = some place) :
    after.store.read path = .ok text ↔
      Delivery.deposit disk.store (Delivery.toFiles (session.documents paths)) disk.store.get?
        place = some (.file text) := by
  obtain ⟨htree, hheld, -⟩ := session.write_ok hwrite
  have hlocate := htree.locate_eq_ok (FileStore.target?_eq_some_iff.mp hplace).1
  rw [FileStore.read_eq_ok_iff, ← hheld]
  constructor
  · rintro ⟨found, hfound, htext⟩
    cases hlocate.symm.trans hfound
    exact htext
  · intro htext
    exact ⟨place, hlocate, htext⟩

theorem deposit_mockFiles {store : FileStore} {held : Location → Option Entry} {mock : Path}
    {place : Location} (hmock : paths.mockFile? = some mock)
    (hplace : store.locate mock = .ok place) :
    Delivery.deposit store (session.mockFiles paths) held =
      Function.update held place (some (.file session.mockSource)) := by
  rw [mockFiles, hmock, Option.toList_some, List.map_singleton, Delivery.deposit_cons hplace]
  rfl

section Files

variable {header source : Path} {headerPlace sourcePlace : Location}

/-- The companions are written over whatever the mocks left. -/
theorem deposit_companions (hfiles : paths.companions? = some (.file header, .file source))
    (hheader : disk.store.locate header = .ok headerPlace)
    (hsource : disk.store.locate source = .ok sourcePlace) :
    Delivery.deposit disk.store (Delivery.toFiles (session.documents paths)) disk.store.get? =
      Function.update
        (Function.update (Delivery.deposit disk.store (session.mockFiles paths) disk.store.get?)
          headerPlace (some (.file session.companionHeader)))
        sourcePlace
        (some (.file (session.companionSource (session.headerName (.file header))))) := by
  rw [toFiles_documents_of_files hfiles, Delivery.deposit_append, Delivery.deposit_cons hheader,
    Delivery.deposit_cons hsource]
  rfl

theorem companions_delivered (hwrite : disk.run (session.write paths) = (.ok (), after))
    (hfiles : paths.companions? = some (.file header, .file source))
    (hheader : disk.store.target? header = some headerPlace)
    (hsource : disk.store.target? source = some sourcePlace) (hne : headerPlace ≠ sourcePlace) :
    after.store.read header = .ok session.companionHeader ∧
      after.store.read source =
        .ok (session.companionSource (session.headerName (.file header))) := by
  have hdeposit := @deposit_companions session paths disk _ _ _ _ hfiles
    (FileStore.target?_eq_some_iff.mp hheader).1 (FileStore.target?_eq_some_iff.mp hsource).1
  rw [read_iff_deposit hwrite hheader, read_iff_deposit hwrite hsource, hdeposit,
    Function.update_of_ne hne, Function.update_self, Function.update_self]
  exact ⟨rfl, rfl⟩

/-- The mocks are lost exactly when a companion goes to their place. -/
theorem mocks_delivered_iff (hwrite : disk.run (session.write paths) = (.ok (), after))
    (hfiles : paths.companions? = some (.file header, .file source)) {mock : Path}
    {place : Location} (hmock : paths.mockFile? = some mock)
    (hplace : disk.store.target? mock = some place)
    (hheader : disk.store.locate header = .ok headerPlace)
    (hsource : disk.store.locate source = .ok sourcePlace) :
    after.store.read mock = .ok session.mockSource ↔ place ≠ headerPlace ∧ place ≠ sourcePlace := by
  rw [read_iff_deposit hwrite hplace, deposit_companions hfiles hheader hsource,
    deposit_mockFiles hmock (FileStore.target?_eq_some_iff.mp hplace).1]
  -- The last text written to a place is what it holds, and no companion reads like the mocks.
  by_cases hatSource : place = sourcePlace
  · subst hatSource
    rw [Function.update_self]
    refine iff_of_false ?_ fun h => h.2 rfl
    intro hsame
    exact session.mockSource_ne_companionSource _ (Entry.file.inj (Option.some.inj hsame)).symm
  · rw [Function.update_of_ne hatSource]
    by_cases hatHeader : place = headerPlace
    · subst hatHeader
      rw [Function.update_self]
      refine iff_of_false ?_ fun h => h.1 rfl
      intro hsame
      exact session.mockSource_ne_companionHeader (Entry.file.inj (Option.some.inj hsame)).symm
    · rw [Function.update_of_ne hatHeader, Function.update_self]
      exact iff_of_true rfl ⟨hatHeader, hatSource⟩

end Files

theorem mem_mockFiles {document : Path × String} :
    document ∈ session.mockFiles paths ↔
      ∃ mock, paths.mockFile? = some mock ∧ document = (mock, session.mockSource) := by
  simp [mockFiles, eq_comm]

theorem delivers_mocks_alone (hwrite : disk.run (session.write paths) = (.ok (), after))
    (hout : ∀ pair, paths.companions? = some pair → pair = (.standardOutput, .standardOutput)) :
    ∀ document ∈ Delivery.toFiles (session.documents paths),
      after.store.read document.1 = .ok document.2 := by
  intro document hdocument
  obtain ⟨-, -, htargets⟩ := session.write_ok hwrite
  obtain ⟨place, hplace⟩ := htargets document hdocument
  have hdocuments := @toFiles_documents_of_none session paths hout
  rw [hdocuments] at hdocument
  obtain ⟨mock, hmock, rfl⟩ := mem_mockFiles.mp hdocument
  rw [read_iff_deposit hwrite hplace, hdocuments,
    deposit_mockFiles hmock (FileStore.target?_eq_some_iff.mp hplace).1, Function.update_self]

/-- With companions in files at two places, only the mocks can be lost. -/
theorem delivers_iff_of_files {header source : Path}
    (hwrite : disk.run (session.write paths) = (.ok (), after))
    (hfiles : paths.companions? = some (.file header, .file source))
    (hdistinct : ∀ {store : FileStore} {place other : Location},
      store.target? header = some place → store.target? source = some other → place ≠ other) :
    (∀ document ∈ Delivery.toFiles (session.documents paths),
        after.store.read document.1 = .ok document.2) ↔
      ∀ mock, paths.mockFile? = some mock →
        disk.store.locate mock ≠ disk.store.locate header ∧
          disk.store.locate mock ≠ disk.store.locate source := by
  obtain ⟨-, -, htargets⟩ := session.write_ok hwrite
  rw [toFiles_documents_of_files hfiles] at htargets ⊢
  rw [List.forall_mem_append, List.forall_mem_cons, List.forall_mem_singleton] at htargets ⊢
  obtain ⟨hmockTargets, ⟨headerPlace, hheader⟩, sourcePlace, hsource⟩ := htargets
  have hheader' := (FileStore.target?_eq_some_iff.mp hheader).1
  have hsource' := (FileStore.target?_eq_some_iff.mp hsource).1
  have hcompanions := companions_delivered hwrite hfiles hheader hsource (hdistinct hheader hsource)
  have hmocks : ∀ mock, paths.mockFile? = some mock →
      (after.store.read mock = .ok session.mockSource ↔
        disk.store.locate mock ≠ disk.store.locate header ∧
          disk.store.locate mock ≠ disk.store.locate source) := by
    intro mock hmock
    obtain ⟨place, hplace⟩ := hmockTargets _ (mem_mockFiles.mpr ⟨mock, hmock, rfl⟩)
    rw [mocks_delivered_iff hwrite hfiles hmock hplace hheader' hsource', hheader', hsource',
      (FileStore.target?_eq_some_iff.mp hplace).1]
    simp
  constructor
  · intro hall mock hmock
    exact (hmocks mock hmock).mp (hall.1 _ (mem_mockFiles.mpr ⟨mock, hmock, rfl⟩))
  · intro hapart
    refine ⟨?_, hcompanions⟩
    intro document hdocument
    obtain ⟨mock, hmock, rfl⟩ := mem_mockFiles.mp hdocument
    exact (hmocks mock hmock).mpr (hapart mock hmock)

/-- A session that succeeds has delivered every document exactly when the mocks went to a place
apart from both companions. -/
theorem delivers_iff_mocksApart {input : Path} {mock? companions? : Option String}
    {seen resolved : Disk}
    (hresolve : seen.run (OutputPaths.resolve input mock? companions?) = (paths, resolved))
    (hwrite : disk.run (session.write paths) = (.ok (), after)) :
    (∀ document ∈ Delivery.toFiles (session.documents paths),
        after.store.read document.1 = .ok document.2) ↔
      paths.MocksApart disk.store := by
  rcases OutputPaths.companions_cases hresolve with ⟨hnone, hout⟩ |
    ⟨header, source, hfiles, hdistinct⟩
  · refine iff_of_true (delivers_mocks_alone hwrite hout) ?_
    intro mock _ header source hcompanions
    rw [hnone] at hcompanions
    cases hcompanions
  · have hcompanions : paths.companionFiles? = some (header, source) := by
      rw [OutputPaths.companionFiles?, hfiles]
      rfl
    rw [delivers_iff_of_files hwrite hfiles hdistinct, OutputPaths.MocksApart, hcompanions]
    constructor
    · intro hapart mock hmock _ _ hsame
      cases hsame
      exact hapart mock hmock
    · intro hapart mock hmock
      exact hapart mock hmock header source rfl

/-- Mocks beside the companions in an empty directory. -/
theorem delivers_beside_companions :
    let session : Session :=
      { input := { text := "in.h" }
        asCpp := false
        summary := ""
        book := {}
        catalog := .ofDeclarations {} [{ qualifiedName := "f", returnType := .arithmetic .int }]
        warnings := [] }
    let disk : Disk := { store := .empty ["work"] }
    ∃ paths after,
      disk.run (OutputPaths.resolve session.input (some "mock.cpp") (some "out.cpp")) =
        (paths, disk) ∧
      disk.run (session.write paths) = (.ok (), after) ∧
      ∀ document ∈ Delivery.toFiles (session.documents paths),
        after.store.read document.1 = .ok document.2 := by
  intro session disk
  have hresolve :
      disk.run (OutputPaths.resolve session.input (some "mock.cpp") (some "out.cpp")) =
        ({ mock? := some (.file { text := "mock.cpp" })
           companions? := some (.file { text := "out.hpp" }, .file { text := "out.cpp" }) },
          disk) := by
    decide
  refine ⟨_, _, hresolve, Disk.run_eq_of_isOk (by decide +kernel), ?_⟩
  refine (delivers_iff_mocksApart hresolve (Disk.run_eq_of_isOk (by decide +kernel))).mpr ?_
  intro mock hmock header source hcompanions
  cases hmock
  cases hcompanions
  have hmock : disk.store.target? { text := "mock.cpp" } = some ["mock.cpp", "work"] := by decide
  have hheader : disk.store.target? { text := "out.hpp" } = some ["out.hpp", "work"] := by decide
  have hsource : disk.store.target? { text := "out.cpp" } = some ["out.cpp", "work"] := by decide
  rw [(FileStore.target?_eq_some_iff.mp hmock).1, (FileStore.target?_eq_some_iff.mp hheader).1,
    (FileStore.target?_eq_some_iff.mp hsource).1]
  simp

/-- Mocks and companions that are asked for under one name. The run succeeds, and the mocks are
lost. -/
theorem mocks_lost_under_companions :
    let session : Session :=
      { input := { text := "in.h" }
        asCpp := false
        summary := ""
        book := {}
        catalog := .ofDeclarations {} [{ qualifiedName := "f", returnType := .arithmetic .int }]
        warnings := [] }
    let disk : Disk := { store := .empty ["work"] }
    let mock : Path := { text := "out.cpp" }
    ∃ paths after,
      disk.run (OutputPaths.resolve session.input (some "out.cpp") (some "out.cpp")) =
        (paths, disk) ∧
      disk.run (session.write paths) = (.ok (), after) ∧
      (mock, session.mockSource) ∈ Delivery.toFiles (session.documents paths) ∧
      after.store.read mock = .ok (session.companionSource "out.hpp") ∧
      session.mockSource ≠ session.companionSource "out.hpp" := by
  intro session disk mock
  have hresolve :
      disk.run (OutputPaths.resolve session.input (some "out.cpp") (some "out.cpp")) =
        ({ mock? := some (.file mock)
           companions? := some (.file { text := "out.hpp" }, .file mock) }, disk) := by
    decide
  refine ⟨_, _, hresolve, Disk.run_eq_of_isOk (by decide +kernel), List.mem_cons_self, ?_,
    session.mockSource_ne_companionSource _⟩
  have hheader : disk.store.target? { text := "out.hpp" } = some ["out.hpp", "work"] := by decide
  have hsource : disk.store.target? mock = some ["out.cpp", "work"] := by decide
  exact (companions_delivered (Disk.run_eq_of_isOk (by decide +kernel)) rfl hheader hsource
    (by decide)).2

end Session

end Understudy
