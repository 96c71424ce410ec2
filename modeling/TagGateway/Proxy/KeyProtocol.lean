import TagGateway.Foundation.Machine
import TagGateway.Proxy.Mutation

/-!
# Every request for one key, interleaved

The world holds the shared state and any number of mutations, populates and
cache lookups. One label is one step of one of them, or of the store itself: a
row may expire, blocks come and go, and any reader may invalidate the row at a
version it observed.
-/
namespace TagGateway.Proxy

open Foundation Cache

universe u

inductive Lookup where
  | started
  | finished
deriving DecidableEq

structure World (σ : Type u) where
  shared : Shared σ
  mutations : ℕ → Option Mutation
  populates : ℕ → Option Populate
  lookups : ℕ → Option Lookup

inductive Label where
  | startMutation (j : ℕ) (kind : MutationKind)
  | mutation (j : ℕ) (input : MutationInput)
  | startPopulate (i : ℕ) (kind : PopulateKind)
  | populate (i : ℕ) (input : PopulateInput)
  | startLookup (k : ℕ)
  | lookup (k : ℕ)
  | invalidate (version : ℕ)
  | expire
  | storeBlock (blockKey : BlockKey)
  | evictBlock (blockKey : BlockKey)

namespace World

variable {σ : Type u} (store : VersionedStore σ Row) (cfg : Config)

/-- One step. Every mutation, populate and lookup has its own index, used
once. -/
def step (w : World σ) : Label → Option (World σ)
  | .startMutation j kind =>
    match w.mutations j with
    | none => some { w with mutations := Function.update w.mutations j (some (.start kind)) }
    | some _ => none
  | .mutation j input =>
    (w.mutations j).bind fun m => (Mutation.step store j w.shared m input).map fun r =>
      { w with shared := r.1, mutations := Function.update w.mutations j (some r.2) }
  | .startPopulate i kind =>
    match w.populates i with
    | none => some { w with populates := Function.update w.populates i (some (.start kind)) }
    | some _ => none
  | .populate i input =>
    (w.populates i).bind fun p => (Populate.step store cfg i w.shared p input).map fun r =>
      { w with shared := r.1, populates := Function.update w.populates i (some r.2) }
  | .startLookup k =>
    match w.lookups k with
    | none => some { w with
        shared := w.shared.emit (.lookupStarted k)
        lookups := Function.update w.lookups k (some .started) }
    | some _ => none
  | .lookup k =>
    match w.lookups k with
    | some .started => some { w with
        shared := w.shared.emit (.lookedUp k (store.row w.shared.store))
        lookups := Function.update w.lookups k (some .finished) }
    | _ => none
  | .invalidate version => some { w with
      shared := { w.shared with
        store := (CasCoordinator.deleteMetaIfVersion store w.shared.store version).1 } }
  | .expire => some { w with shared := { w.shared with store := store.expire w.shared.store } }
  | .storeBlock blockKey => some { w with
      shared := { w.shared with blocks := blockKey :: w.shared.blocks } }
  | .evictBlock blockKey => some { w with
      shared := { w.shared with blocks := w.shared.blocks.filter (· ≠ blockKey) } }

inductive Stepped (w : World σ) : Label → World σ → Prop
  | startMutation {j : ℕ} {kind : MutationKind} (unused : w.mutations j = none) :
      Stepped w (.startMutation j kind)
        { w with mutations := Function.update w.mutations j (some (.start kind)) }
  | mutation {j : ℕ} {input : MutationInput} {m m' : Mutation} {sh : Shared σ}
      (found : w.mutations j = some m) (step : m.step store j w.shared input = some (sh, m')) :
      Stepped w (.mutation j input)
        { w with shared := sh, mutations := Function.update w.mutations j (some m') }
  | startPopulate {i : ℕ} {kind : PopulateKind} (unused : w.populates i = none) :
      Stepped w (.startPopulate i kind)
        { w with populates := Function.update w.populates i (some (.start kind)) }
  | populate {i : ℕ} {input : PopulateInput} {p p' : Populate} {sh : Shared σ}
      (found : w.populates i = some p) (step : p.step store cfg i w.shared input = some (sh, p')) :
      Stepped w (.populate i input)
        { w with shared := sh, populates := Function.update w.populates i (some p') }
  | startLookup {k : ℕ} : Stepped w (.startLookup k)
      { w with
        shared := w.shared.emit (.lookupStarted k)
        lookups := Function.update w.lookups k (some .started) }
  | lookup {k : ℕ} : Stepped w (.lookup k)
      { w with
        shared := w.shared.emit (.lookedUp k (store.row w.shared.store))
        lookups := Function.update w.lookups k (some .finished) }
  | invalidate {version : ℕ} : Stepped w (.invalidate version)
      { w with
        shared := { w.shared with
          store := (CasCoordinator.deleteMetaIfVersion store w.shared.store version).1 } }
  | expire : Stepped w .expire
      { w with shared := { w.shared with store := store.expire w.shared.store } }
  | blocks {l : Label} (stored : List BlockKey)
      (label : (∃ key, l = .storeBlock key) ∨ ∃ key, l = .evictBlock key) :
      Stepped w l { w with shared := { w.shared with blocks := stored } }

variable {store cfg}

theorem stepped {w w' : World σ} {l : Label} (hstep : w.step store cfg l = some w') :
    Stepped store cfg w l w' := by
  unfold step at hstep
  split at hstep
  case h_1 | h_3 | h_5 | h_6 =>
    split at hstep
    · obtain rfl := Option.some.inj hstep
      constructor <;> assumption
    · cases hstep
  case h_2 | h_4 =>
    simp only [Option.bind_eq_some_iff, Option.map_eq_some_iff] at hstep
    obtain ⟨p, hp, ⟨sh, p'⟩, hps, rfl⟩ := hstep
    constructor
    · exact hp
    · exact hps
  case h_7 =>
    obtain rfl := Option.some.inj hstep
    exact .invalidate
  case h_8 =>
    obtain rfl := Option.some.inj hstep
    exact .expire
  case h_9 key =>
    obtain rfl := Option.some.inj hstep
    exact .blocks _ (.inl ⟨key, rfl⟩)
  case h_10 key =>
    obtain rfl := Option.some.inj hstep
    exact .blocks _ (.inr ⟨key, rfl⟩)

def initial (store₀ : σ) (object : Option ObjectVersion) (nextId : ℕ) (blocks : List BlockKey) :
    World σ where
  shared := ⟨store₀, object, nextId, blocks, []⟩
  mutations _ := none
  populates _ := none
  lookups _ := none

end World
end TagGateway.Proxy
