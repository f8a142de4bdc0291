import SeedTree.Proofs.Engine.Operation
import SeedTree.Proofs.Engine.Rule

/- The operations that read, each on a well-formed store with nothing in between: the moves they
   take, and what they answer. -/
namespace SeedTree

open Attempt

namespace Engine

def accept (e : Engine) (input : String) (world : World) : Except Failure String :=
  ((e.worlds.check world).mapError fun fault => .invalidConfig (.world fault)).bind fun _ =>
    (Path.normalize input).mapError Failure.invalidPath

theorem accept_ok_iff {e : Engine} {input path : String} {world : World} :
    e.accept input world = .ok path ↔
      e.worlds.check world = .ok () ∧ Path.normalize input = .ok path := by
  unfold accept
  cases e.worlds.check world with
  | error fault => simp [Except.mapError, Except.bind]
  | ok checked =>
    cases Path.normalize input with
    | error fault => simp [Except.mapError, Except.bind]
    | ok normalized => simp [Except.mapError, Except.bind]

theorem ends_accept {α : Type} {g : Setting} {held : List String} {here : g.State} {e : Engine}
    {input : String} {world : World} {f : String → Attempt α}
    {post : Except Failure α → g.State → Prop}
    (fails : ∀ failure, e.accept input world = .error failure → post (.error failure) here)
    (leads : ∀ path, e.accept input world = .ok path → Path.IsNormal path →
      (f path).Ends g held here post) :
    (fromWorld (e.worlds.check world) >>= fun _ =>
      fromPath (Path.normalize input) >>= f).Ends g held here post := by
  unfold accept at fails leads
  refine ends_bind (ends_fromWorld ?_)
  cases checked : e.worlds.check world with
  | error fault =>
    rw [checked] at fails
    exact fails _ rfl
  | ok passed =>
    rw [checked] at fails leads
    refine ends_bind (ends_fromPath ?_)
    cases normalized : Path.normalize input with
    | error fault =>
      rw [normalized] at fails
      exact fails _ rfl
    | ok path =>
      rw [normalized] at leads
      exact leads path rfl (Path.normalize_isNormal normalized)

end Engine

variable {e : Engine} {scope : Scope} {s t : Store} {n k : Node} {held : List String}
  {path name input : String} {world : World}

def Engine.content (e : Engine) (n : Node) : Bytes :=
  fileContent n.id e.config.parameters.contentSeed n.upload

section Reading

variable (wf : s.WellFormed scope e.materializer.parameters)
  (ready : e.Ready scope e.materializer.parameters)

include wf ready

theorem ends_getNode : (e.getNode input world).Ends
    (Setting.alone scope e.materializer.parameters) held s
    (Walked e.materializer scope s
      ((e.accept input world).bind fun path => e.materializer.resolved s world path)) := by
  refine Engine.ends_accept ?_ ?_
  · intro failure refused
    rw [refused]
    exact .failed (.none s) rfl
  · intro path accepted normal
    rw [accepted]
    exact ends_resolve wf ready.within normal

theorem ends_listChildren : (e.listChildren input world).Ends
    (Setting.alone scope e.materializer.parameters) held s fun result t =>
      Moves e.materializer scope Deed.Walks s t ∧
        ((∃ failure, e.accept input world = .error failure ∧ result = .error failure) ∨
          ∃ path, e.accept input world = .ok path ∧
            Listed e.materializer scope s world path t result) := by
  refine Engine.ends_accept ?_ ?_
  · exact fun failure refused => ⟨.none s, Or.inl ⟨failure, refused, rfl⟩⟩
  · intro path accepted normal
    refine (ends_list wf ready.within normal).mono fun result t listed => ?_
    exact ⟨listed.1, Or.inr ⟨path, accepted, listed.2⟩⟩

inductive Read (e : Engine) (s : Store) (id : NodeId) : Except Failure (Bytes × String) → Prop where
  | missing (absent : s.ids[id.bytes]? = none) : Read e s id (.error (.notFound (.id id)))
  | folder {n : Node} (holds : s.Holds n) (same : n.id = id) (isFolder : n.isFolder = true) :
      Read e s id (.error (.isADirectory n.path))
  | file {n : Node} (holds : s.Holds n) (same : n.id = id) (isFile : n.isFolder = false) :
      Read e s id (.ok (e.content n, checksumOf (e.content n)))

theorem ends_readContent (id : NodeId) : (e.readContent id).Ends
    (Setting.alone scope e.materializer.parameters) held s fun result t =>
      Moves e.materializer scope (Deed.Sums (e.materializer.nodeId · = id)) s t ∧
        Read e s id result ∧
        ∀ failure, result = .error failure → t = s := by
  refine ends_bind (alone_getById wf.regular ?_ ?_)
  · rintro n holds same
    cases isFolder : n.isFolder with
    | true =>
      simp only [then_ok, isFolder, if_true]
      exact ends_throw ⟨.none s, .folder holds same isFolder, fun _ _ => rfl⟩
    | false =>
      simp only [then_ok, isFolder, Bool.false_eq_true, if_false]
      have served : fileContent n.id e.config.parameters.contentSeed n.upload = e.content n := rfl
      have read := Read.file (e := e) holds same isFolder
      have seed : e.config.parameters.contentSeed = e.materializer.parameters.contentSeed := by
        rw [ready.config]
      have suits : (Store.Change.checksum (checksumOf (e.content n)) n.upload).Suits
          e.materializer scope n := ⟨isFolder, by rw [Engine.content, seed]⟩
      rw [served]
      -- Nothing below may compute the checksum.
      generalize checksumOf (e.content n) = text at read suits ⊢
      have answered : ∀ {t}, Moves e.materializer scope
        (Deed.Sums (e.materializer.nodeId · = id)) s t →
          (pure (e.content n, text) : Attempt _).Ends
            (Setting.alone scope e.materializer.parameters)
            held t fun result t =>
              Moves e.materializer scope (Deed.Sums (e.materializer.nodeId · = id)) s t ∧
                Read e s id result ∧ ∀ failure, result = .error failure → t = s :=
        fun moves => ends_pure ⟨moves, read, fun _ failed => by cases failed⟩
      cases n.checksum with
      | some kept =>
        exact ends_ite (fun _ => ends_bind (ends_tell (answered (.none s)))) fun _ =>
          answered (.none s)
      | none =>
        refine ends_bind
          (ends_discard (alone_change wf.regular (suits.fits ready.within) holds ?_ ?_))
        · exact fun _ => answered (.none s)
        · intro k new _
          have own : e.materializer.nodeId n.path = id := (wf.shaped holds).id.symm.trans same
          exact answered (.one (Deed.sums_checksum own ..) (.changed holds suits new))
  · exact fun missing => ends_throw ⟨.none s, .missing missing, fun _ _ => rfl⟩

theorem ends_readRange (id : NodeId) (offset : UInt64) (length : Option UInt64) :
    (e.readRange id offset length).Ends (Setting.alone scope e.materializer.parameters) held s
      fun result t => Moves e.materializer scope (Deed.Sums (e.materializer.nodeId · = id)) s t ∧
        ∃ whole, Read e s id whole ∧
          result = whole.map fun served => Engine.slice served.1 offset length := by
  refine ends_bind ((ends_readContent wf ready id).mono ?_)
  rintro result t ⟨moves, read, _⟩
  cases result with
  | error failure => exact ⟨moves, _, read, rfl⟩
  | ok served => exact ends_pure ⟨moves, _, read, rfl⟩

theorem Read.own {may : Deed → Prop} {result : Except Failure (Bytes × String)}
    (read : Read e s n.id result) (holds : s.Holds n) (isFile : n.isFolder = false)
    (moves : Moves e.materializer scope may s t) (reads : ∀ deed, may deed → deed.Reads)
    (stays : ∀ failure, result = .error failure → t = s) (entered : t.Entered) :
    result = .ok (e.content n, checksumOf (e.content n)) := by
  have unique : ∀ k, s.Holds k → k.id = n.id → k = n := by
    intro k there same
    obtain ⟨k', found, keeps, _⟩ := moves.read ready.within reads wf there
    obtain ⟨n', found', keeps', _⟩ := moves.read ready.within reads wf holds
    have later := moves.wellFormed ready.within wf
    have own := entered k' (later.holds found).1
    have own' := entered n' (later.holds found').1
    rw [keeps.place.id, same, ← keeps'.place.id, own', keeps.place.path, keeps'.place.path] at own
    exact Store.Holds.unique there (by rw [utf8_injective (Option.some.inj own).symm]; exact holds)
  cases read with
  | missing absent =>
    have known := entered n
    rw [stays _ rfl] at known
    rw [known holds] at absent
    cases absent
  | folder there same isFolder =>
    rw [unique _ there same, isFile] at isFolder
    cases isFolder
  | file there same => rw [unique _ there same]

theorem ends_readOwn (holds : s.Holds n) (isFile : n.isFolder = false) :
    (e.readContent n.id).Ends (Setting.alone scope e.materializer.parameters) held s fun result t =>
      Moves e.materializer scope (Deed.Sums (e.materializer.nodeId · = n.id)) s t ∧
        (t.Entered → result = .ok (e.content n, checksumOf (e.content n))) := by
  refine (ends_readContent wf ready n.id).mono ?_
  rintro result t ⟨moves, read, stays⟩
  exact ⟨moves, read.own wf ready holds isFile moves (fun _ sums => sums.reads) stays⟩

theorem ends_checksum : (e.checksum input world).Ends
    (Setting.alone scope e.materializer.parameters) held s fun result t =>
      Moves e.materializer scope
          (Deed.Sums ((Operation.checksum input world).Hashes e.materializer.parameters.seed)) s t ∧
        (s.Obeys (Node.Honest e.materializer.parameters) → t.Entered → result =
          ((e.accept input world).bind fun path =>
            e.materializer.resolved s world path).bind fun n =>
            if n.isFolder then .error (.isADirectory n.path)
            else .ok (checksumOf (e.content n))) := by
  refine ends_bind ((ends_getNode wf ready).mono ?_)
  intro result t walked
  have walks : Moves e.materializer scope
      (Deed.Sums ((Operation.checksum input world).Hashes e.materializer.parameters.seed)) s t :=
    walked.moves.mono fun _ walks => walks.sums
  cases result with
  | error failure =>
    refine ⟨walks, fun _ _ => ?_⟩
    rw [walked.answer.eq_error]
    rfl
  | ok n =>
    obtain ⟨shown, resolved, u, before, holds, after, alike⟩ := walked.answer.of_ok
    have middle := before.wellFormed ready.within wf
    have later := walked.moves.wellFormed ready.within wf
    have same : e.content shown = e.content n := by
      rw [Engine.content, Engine.content, alike.like.place.id, alike.like.upload]
    rw [resolved]
    simp only [then_ok, Except.bind, ← alike.like.isFolder, ← alike.like.place.path, same]
    refine ends_ite (fun isFolder => ?_) fun isFile => ?_
    · refine ends_throw ⟨walks, fun _ _ => ?_⟩
      rw [if_pos isFolder]
    · simp only [isFile, Bool.false_eq_true, if_false]
      cases known : n.checksum with
      | some kept =>
        refine ends_pure ⟨walks, fun honest _ => ?_⟩
        have obeys :=
          before.obeys (honest_rule scope e.materializer.parameters) ready.within wf honest
        rw [(obeys n holds kept known).2, Engine.content, ready.config]
      | none =>
        have isFile : n.isFolder = false := by simpa using isFile
        obtain ⟨k, found, keeps, alike'⟩ :=
          after.read ready.within (fun _ walks => walks.reads) middle holds
        have stands := (later.holds found).1
        have content : e.content k = e.content n := by
          rw [Engine.content, Engine.content, alike'.like.place.id, alike'.like.upload]
        obtain ⟨own, accepted, place⟩ := of_bind_ok resolved
        have normalized := (Engine.accept_ok_iff.mp accepted).2
        have identity : k.id = e.materializer.nodeId own := by
          have path := wf.resolved_path (Path.normalize_isNormal normalized) place
          rw [(later.shaped stands).id, keeps.place.path, alike.like.place.path, path]
          rfl
        rw [← keeps.place.id, ← content]
        refine ends_bind
          ((ends_readOwn later ready stands (by rw [keeps.isFolder, isFile])).mono ?_)
        rintro result w ⟨moves, own⟩
        have whole := walks.append (moves.mono fun _ => Deed.Sums.mono fun path same =>
          ⟨_, normalized, same.trans identity⟩)
        cases result with
        | error failure =>
          refine ⟨whole, fun _ entered => ?_⟩
          cases own entered
        | ok served =>
          refine ends_pure ⟨whole, fun _ entered => ?_⟩
          rw [Except.ok.inj (own entered)]

end Reading

end SeedTree
