import Gqlforge.Resolvers

namespace Gqlforge.IrCaching

open Resolvers

mutual

def modify (modifier : IR → Option IR) (expr : IR) : IR :=
  match modifier expr with
  | some replacement => replacement
  | none =>
    match expr with
    | .pipe first second => .pipe (modify modifier first) (modify modifier second)
    | .contextPath path => .contextPath path
    | .dynamic value => .dynamic value
    | .io io => .io io
    | .cache ⟨maxAge, io⟩ =>
      -- the request is asked about by itself, without its cache
      match (modifier (.io io)).getD (.io io) with
      | .io io => .cache ⟨maxAge, io⟩
      | expr => expr
    | .path expr path => .path (modify modifier expr) path
    | .protect auth accessExpr expr => .protect auth accessExpr (modify modifier expr)
    | .map input map => .map (modify modifier input) map
    | .discriminate discriminator expr => .discriminate discriminator (modify modifier expr)
    | .entity map => .entity (modifyEntries modifier map)
    | .service sdl => .service sdl
    | .merge irs => .merge (modifyAll modifier irs)

def modifyAll (modifier : IR → Option IR) : List IR → List IR
  | [] => []
  | ir :: rest => modify modifier ir :: modifyAll modifier rest

def modifyEntries (modifier : IR → Option IR) : List (String × IR) → List (String × IR)
  | [] => []
  | (name, ir) :: rest => (name, modify modifier ir) :: modifyEntries modifier rest

end

def cacheRequest (maxAge : NonZeroU64) : IR → Option IR
  | .io io => some (.cache ⟨maxAge, io⟩)
  | _ => none

def wrap (maxAge : NonZeroU64) (expr : IR) : IR :=
  modify (cacheRequest maxAge) expr

def wrapAll (maxAge : NonZeroU64) (irs : List IR) : List IR :=
  modifyAll (cacheRequest maxAge) irs

def wrapEntries (maxAge : NonZeroU64) (map : List (String × IR)) : List (String × IR) :=
  modifyEntries (cacheRequest maxAge) map

inductive Within : IR → IR → Prop where
  | here (ir : IR) : Within ir ir
  | cached {ir : IR} {cache : Cache} : Within ir (.io cache.io) → Within ir (.cache cache)
  | path {ir input : IR} {path : List String} : Within ir input → Within ir (.path input path)
  | protect {ir expr : IR} {auth : Auth} {accessExpr : Option AccessExpr} :
      Within ir expr → Within ir (.protect auth accessExpr expr)
  | map {ir input : IR} {map : List (String × String)} : Within ir input → Within ir (.map input map)
  | first {ir first second : IR} : Within ir first → Within ir (.pipe first second)
  | second {ir first second : IR} : Within ir second → Within ir (.pipe first second)
  | merge {ir item : IR} {irs : List IR} : item ∈ irs → Within ir item → Within ir (.merge irs)
  | discriminate {ir expr : IR} {discriminator : Discriminator} :
      Within ir expr → Within ir (.discriminate discriminator expr)
  | entity {ir item : IR} {name : String} {map : List (String × IR)} :
      (name, item) ∈ map → Within ir item → Within ir (.entity map)

mutual

def requests : IR → List (List NonZeroU64 × Io)
  | .io io => [([], io)]
  | .cache ⟨maxAge, io⟩ => [([maxAge], io)]
  | .path input _ => requests input
  | .protect _ _ expr => requests expr
  | .map input _ => requests input
  | .pipe first second => requests first ++ requests second
  | .merge irs => requestsAll irs
  | .discriminate _ expr => requests expr
  | .entity map => requestsEntries map
  | .dynamic _ => []
  | .contextPath _ => []
  | .service _ => []

def requestsAll : List IR → List (List NonZeroU64 × Io)
  | [] => []
  | ir :: rest => requests ir ++ requestsAll rest

def requestsEntries : List (String × IR) → List (List NonZeroU64 × Io)
  | [] => []
  | (_, ir) :: rest => requests ir ++ requestsEntries rest

end

mutual

def uncached : IR → IR
  | .cache cache => .io cache.io
  | .io io => .io io
  | .path input path => .path (uncached input) path
  | .protect auth accessExpr expr => .protect auth accessExpr (uncached expr)
  | .map input map => .map (uncached input) map
  | .pipe first second => .pipe (uncached first) (uncached second)
  | .merge irs => .merge (uncachedAll irs)
  | .discriminate discriminator expr => .discriminate discriminator (uncached expr)
  | .entity map => .entity (uncachedEntries map)
  | .dynamic value => .dynamic value
  | .contextPath path => .contextPath path
  | .service sdl => .service sdl

def uncachedAll : List IR → List IR
  | [] => []
  | ir :: rest => uncached ir :: uncachedAll rest

def uncachedEntries : List (String × IR) → List (String × IR)
  | [] => []
  | (name, ir) :: rest => (name, uncached ir) :: uncachedEntries rest

end

section Wrap

variable (maxAge : NonZeroU64)

@[simp]
theorem wrap_io (io : Io) : wrap maxAge (.io io) = .cache ⟨maxAge, io⟩ := rfl

@[simp]
theorem wrap_cache (cache : Cache) : wrap maxAge (.cache cache) = .cache ⟨maxAge, cache.io⟩ := rfl

@[simp]
theorem wrap_path (input : IR) (path : List String) :
    wrap maxAge (.path input path) = .path (wrap maxAge input) path := rfl

@[simp]
theorem wrap_protect (auth : Auth) (accessExpr : Option AccessExpr) (expr : IR) :
    wrap maxAge (.protect auth accessExpr expr) = .protect auth accessExpr (wrap maxAge expr) := rfl

@[simp]
theorem wrap_map (input : IR) (map : List (String × String)) :
    wrap maxAge (.map input map) = .map (wrap maxAge input) map := rfl

@[simp]
theorem wrap_pipe (first second : IR) :
    wrap maxAge (.pipe first second) = .pipe (wrap maxAge first) (wrap maxAge second) := rfl

@[simp]
theorem wrap_merge (irs : List IR) : wrap maxAge (.merge irs) = .merge (wrapAll maxAge irs) := rfl

@[simp]
theorem wrap_discriminate (discriminator : Discriminator) (expr : IR) :
    wrap maxAge (.discriminate discriminator expr) = .discriminate discriminator (wrap maxAge expr) := rfl

@[simp]
theorem wrap_entity (map : List (String × IR)) : wrap maxAge (.entity map) = .entity (wrapEntries maxAge map) := rfl

@[simp]
theorem wrap_dynamic (value : Templates.DynamicValue) : wrap maxAge (.dynamic value) = .dynamic value := rfl

@[simp]
theorem wrap_contextPath (path : List String) : wrap maxAge (.contextPath path) = .contextPath path := rfl

@[simp]
theorem wrap_service (sdl : String) : wrap maxAge (.service sdl) = .service sdl := rfl

@[simp]
theorem wrapAll_nil : wrapAll maxAge [] = [] := rfl

@[simp]
theorem wrapAll_cons (ir : IR) (rest : List IR) :
    wrapAll maxAge (ir :: rest) = wrap maxAge ir :: wrapAll maxAge rest := rfl

@[simp]
theorem wrapEntries_nil : wrapEntries maxAge [] = [] := rfl

@[simp]
theorem wrapEntries_cons (name : String) (ir : IR) (rest : List (String × IR)) :
    wrapEntries maxAge ((name, ir) :: rest) = (name, wrap maxAge ir) :: wrapEntries maxAge rest := rfl

end Wrap

def under (maxAge : NonZeroU64) (request : List NonZeroU64 × Io) : List NonZeroU64 × Io :=
  ([maxAge], request.2)

mutual

theorem requests_wrap (maxAge : NonZeroU64) : ∀ expr : IR,
    requests (wrap maxAge expr) = (requests expr).map (under maxAge)
  | .io _ => by simp [requests, under]
  | .cache _ => by simp [requests, under]
  | .path input _ => by
    rw [wrap_path, requests, requests]
    exact requests_wrap maxAge input
  | .protect _ _ expr => by
    rw [wrap_protect, requests, requests]
    exact requests_wrap maxAge expr
  | .map input _ => by
    rw [wrap_map, requests, requests]
    exact requests_wrap maxAge input
  | .pipe first second => by
    rw [wrap_pipe, requests, requests, List.map_append, requests_wrap maxAge first, requests_wrap maxAge second]
  | .merge irs => by
    rw [wrap_merge, requests, requests]
    exact requestsAll_wrap maxAge irs
  | .discriminate _ expr => by
    rw [wrap_discriminate, requests, requests]
    exact requests_wrap maxAge expr
  | .entity map => by
    rw [wrap_entity, requests, requests]
    exact requestsEntries_wrap maxAge map
  | .dynamic _ => by simp [requests]
  | .contextPath _ => by simp [requests]
  | .service _ => by simp [requests]

theorem requestsAll_wrap (maxAge : NonZeroU64) : ∀ irs : List IR,
    requestsAll (wrapAll maxAge irs) = (requestsAll irs).map (under maxAge)
  | [] => rfl
  | ir :: rest => by
    rw [wrapAll_cons, requestsAll, requestsAll, List.map_append, requests_wrap maxAge ir,
      requestsAll_wrap maxAge rest]

theorem requestsEntries_wrap (maxAge : NonZeroU64) : ∀ map : List (String × IR),
    requestsEntries (wrapEntries maxAge map) = (requestsEntries map).map (under maxAge)
  | [] => rfl
  | (_, ir) :: rest => by
    rw [wrapEntries_cons, requestsEntries, requestsEntries, List.map_append, requests_wrap maxAge ir,
      requestsEntries_wrap maxAge rest]

end

mutual

theorem uncached_wrap (maxAge : NonZeroU64) : ∀ expr : IR, uncached (wrap maxAge expr) = uncached expr
  | .io _ => by simp [uncached]
  | .cache _ => by simp [uncached]
  | .path input _ => by rw [wrap_path, uncached, uncached, uncached_wrap maxAge input]
  | .protect _ _ expr => by rw [wrap_protect, uncached, uncached, uncached_wrap maxAge expr]
  | .map input _ => by rw [wrap_map, uncached, uncached, uncached_wrap maxAge input]
  | .pipe first second => by
    rw [wrap_pipe, uncached, uncached, uncached_wrap maxAge first, uncached_wrap maxAge second]
  | .merge irs => by rw [wrap_merge, uncached, uncached, uncachedAll_wrap maxAge irs]
  | .discriminate _ expr => by rw [wrap_discriminate, uncached, uncached, uncached_wrap maxAge expr]
  | .entity map => by rw [wrap_entity, uncached, uncached, uncachedEntries_wrap maxAge map]
  | .dynamic _ => by rw [wrap_dynamic]
  | .contextPath _ => by rw [wrap_contextPath]
  | .service _ => by rw [wrap_service]

theorem uncachedAll_wrap (maxAge : NonZeroU64) : ∀ irs : List IR,
    uncachedAll (wrapAll maxAge irs) = uncachedAll irs
  | [] => rfl
  | ir :: rest => by
    rw [wrapAll_cons, uncachedAll, uncachedAll, uncached_wrap maxAge ir, uncachedAll_wrap maxAge rest]

theorem uncachedEntries_wrap (maxAge : NonZeroU64) : ∀ map : List (String × IR),
    uncachedEntries (wrapEntries maxAge map) = uncachedEntries map
  | [] => rfl
  | (_, ir) :: rest => by
    rw [wrapEntries_cons, uncachedEntries, uncachedEntries, uncached_wrap maxAge ir, uncachedEntries_wrap maxAge rest]

end

mutual

theorem wrap_uncached (maxAge : NonZeroU64) : ∀ expr : IR, wrap maxAge (uncached expr) = wrap maxAge expr
  | .io _ => by rw [uncached]
  | .cache _ => by simp [uncached]
  | .path input _ => by rw [uncached, wrap_path, wrap_path, wrap_uncached maxAge input]
  | .protect _ _ expr => by rw [uncached, wrap_protect, wrap_protect, wrap_uncached maxAge expr]
  | .map input _ => by rw [uncached, wrap_map, wrap_map, wrap_uncached maxAge input]
  | .pipe first second => by
    rw [uncached, wrap_pipe, wrap_pipe, wrap_uncached maxAge first, wrap_uncached maxAge second]
  | .merge irs => by rw [uncached, wrap_merge, wrap_merge, wrapAll_uncached maxAge irs]
  | .discriminate _ expr => by rw [uncached, wrap_discriminate, wrap_discriminate, wrap_uncached maxAge expr]
  | .entity map => by rw [uncached, wrap_entity, wrap_entity, wrapEntries_uncached maxAge map]
  | .dynamic _ => by rw [uncached]
  | .contextPath _ => by rw [uncached]
  | .service _ => by rw [uncached]

theorem wrapAll_uncached (maxAge : NonZeroU64) : ∀ irs : List IR, wrapAll maxAge (uncachedAll irs) = wrapAll maxAge irs
  | [] => rfl
  | ir :: rest => by
    rw [uncachedAll, wrapAll_cons, wrapAll_cons, wrap_uncached maxAge ir, wrapAll_uncached maxAge rest]

theorem wrapEntries_uncached (maxAge : NonZeroU64) : ∀ map : List (String × IR),
    wrapEntries maxAge (uncachedEntries map) = wrapEntries maxAge map
  | [] => rfl
  | (_, ir) :: rest => by
    rw [uncachedEntries, wrapEntries_cons, wrapEntries_cons, wrap_uncached maxAge ir, wrapEntries_uncached maxAge rest]

end

theorem wrap_wrap (maxAge earlier : NonZeroU64) (expr : IR) : wrap maxAge (wrap earlier expr) = wrap maxAge expr := by
  rw [← wrap_uncached, uncached_wrap, wrap_uncached]

theorem within_io {ir : IR} {io : Io} (h : Within ir (.io io)) : ir = .io io := by
  cases h
  rfl

theorem within_cache {ir : IR} {cache : Cache} (h : Within ir (.cache cache)) :
    ir = .cache cache ∨ ir = .io cache.io := by
  cases h with
  | here => exact .inl rfl
  | cached h => exact .inr (within_io h)

theorem not_within_cache (auth : Auth) (accessExpr : Option AccessExpr) (expr : IR) (cache : Cache) :
    ¬ Within (.protect auth accessExpr expr) (.cache cache) := by
  intro h
  rcases within_cache h with h | h
  · cases h
  · cases h

end Gqlforge.IrCaching
