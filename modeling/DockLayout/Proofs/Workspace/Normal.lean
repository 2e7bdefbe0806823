import DockLayout.Proofs.Tree.Normal
import DockLayout.Proofs.Tree.RatioLists
import DockLayout.Proofs.Tree.ZeroRects
import DockLayout.Proofs.Workspace.Reachable
import DockLayout.Proofs.Workspace.RoundTrip

/-!
# Layouts that were read

A layout file may spell a workspace in many ways. What is written of the workspace
that was read is one of them, and from then on reading and writing change nothing: the
value that is written stands for the one that was read wherever it is read, with the
same tree, the same counters and the same events.
-/

set_option autoImplicit false

namespace DockLayout.Workspace

variable {K : Type} [Scalar K]

theorem root_of_decode {value : Json K} {rect : Option (Rect K)} {config : Config K}
    {ws : Workspace K} (read : (decode value rect config).result = .ok ws) :
    ∃ root, (rootData value).bind decodeRoot = .ok root ∧
      ws.root.map Area.encode = root.map Area.encode := by
  rw [decode] at read
  cases loaded : (rootData value).bind decodeRoot with
  | error error => simp [loaded] at read
  | ok root =>
    refine ⟨root, rfl, ?_⟩
    cases rect with
    | none =>
      simp only [loaded, Except.ok.injEq] at read
      rw [← read, root_around, Option.map_map]
      exact congrArg (root.map ·) (funext fun area => area.encode_configure config)
    | some rect =>
      simp only [loaded, Except.ok.injEq] at read
      rw [← read]
      change ((((root.map (Area.configure config)).map fun area => area.resize rect)).map
        Area.encode) = _
      rw [Option.map_map, Option.map_map]
      refine congrArg (root.map ·) (funext fun area => ?_)
      exact ((area.configure config).encode_resize rect).trans (area.encode_configure config)

theorem exists_decode {value : Json K} {root : Option (Area K)}
    (loaded : (rootData value).bind decodeRoot = .ok root) (rect : Option (Rect K))
    (config : Config K) : ∃ ws, (decode value rect config).result = .ok ws := by
  rw [decode, loaded]
  cases rect with
  | none => exact ⟨_, rfl⟩
  | some rect => exact ⟨_, rfl⟩

variable [Rounding K]

/-- What is written of a tree that was read is read as that tree. -/
theorem decodeRoot_encode {root : Option (Area K)} (assembled : ∀ area ∈ root, area.Assembled) :
    decodeRoot (root.map Area.encode) = .ok root := by
  cases root with
  | none => rfl
  | some area =>
    change (Area.decode area.encode).map some = _
    rw [(assembled area rfl).decode_encode]
    rfl

theorem decode_encode_of_decode {value : Json K} {rect : Option (Rect K)} {config : Config K}
    {ws : Workspace K} (read : (decode value rect config).result = .ok ws) :
    decode ws.encode = decode value := by
  obtain ⟨root, loaded, written⟩ := root_of_decode read
  have again : (rootData ws.encode).bind decodeRoot = .ok root := by
    rw [rootData_encode]
    change decodeRoot (ws.root.map Area.encode) = _
    rw [written]
    exact decodeRoot_encode (root_assembled loaded)
  funext place settings
  rw [decode, decode, again, loaded]

omit [Scalar K] [Rounding K] in
theorem encode_eq (ws : Workspace K) :
    ws.encode = .obj [
      (Word.version, .int formatVersion),
      (Word.root, (ws.root.map Area.encode).getD .null)] := by
  rw [encode]
  cases ws.root <;> rfl

/-- Loading normalises once. An area that was read is read again from what is written
of it, and all areas in it have zero rectangles. A workspace that was read is written as
a value that stands for the one it was read from, with any rectangle and settings, and
the workspace read from that is written the same way. -/
theorem loading_normalises_once (data : Json Float) :
    (∀ area, Area.decode data = .ok area →
      Area.decode area.encode = .ok area ∧ ∀ inner ∈ area.preorder, inner.rect = .zero) ∧
    (∀ rect config ws, (decode data rect config).result = .ok ws →
      ∀ place settings, decode ws.encode place settings = decode data place settings ∧
        ∃ again, (decode ws.encode place settings).result = .ok again ∧
          again.encode = ws.encode) := by
  constructor
  · intro area read
    exact ⟨Area.decode_encode_of_decode read,
      (Area.decode_assembled data area read).rect_zero⟩
  · intro rect config ws read place settings
    have stands := decode_encode_of_decode read
    obtain ⟨root, loaded, written⟩ := root_of_decode read
    obtain ⟨again, reread⟩ := exists_decode loaded place settings
    obtain ⟨other, same, rewritten⟩ := root_of_decode reread
    rw [loaded] at same
    cases same
    refine ⟨by rw [stands], again, by rw [stands, reread], ?_⟩
    rw [encode_eq, encode_eq, rewritten, written]

/-- Two panels side by side in a form that is never written: capitals in the direction,
the ratios as keys and beyond the bounds, the active tab as a text, and a text for the
data of a plugin. -/
def handmadeRoot : Json Float :=
  let dock (handle : Int) : Json Float := .obj [
    (Word.handle, .int handle), (Word.pluginName, .null), (Word.pluginData, .str Word.type)]
  .obj [
    (Word.type, .str Word.split),
    (Word.handle, .int 5),
    (Word.direction, .str Direction.vertical.name.upper),
    (Word.ratios, .obj [(.ofChars ['7'], .null), (.ofChars ['1'], .null)]),
    (Word.children, .arr [
      .obj [(Word.type, .str Word.container), (Word.docks, .arr [dock 1, dock 2]),
        (Word.activeDock, .str (.ofChars ['1']))],
      .obj [(Word.docks, .arr [dock 3]), (Word.type, .str Word.container),
        (Word.activeDock, .real 0.75)]])]

def handmade : Json Float := .obj [(Word.root, handmadeRoot), (Word.version, .real 1)]

theorem loading_normalises_once_of_handmade :
    (∃ area, Area.decode handmadeRoot = .ok area ∧ Area.decode area.encode = .ok area ∧
      area.ratioLists = [[0.99, 1.0]] ∧ ∀ inner ∈ area.preorder, inner.rect = .zero) ∧
    ∃ ws, (decode handmade (some ⟨0.0, 0.0, 1000.0, 800.0⟩) .standard).result = .ok ws ∧
      decode ws.encode none .standard = decode handmade none .standard ∧
      ∃ again, (decode ws.encode none .standard).result = .ok again ∧
        again.encode = ws.encode := by
  constructor
  · have ratios : (Area.decode handmadeRoot).toOption.map Area.ratioLists =
        some [[0.99, 1.0]] := by
      decide +kernel
    cases read : Area.decode handmadeRoot with
    | error error =>
      rw [read] at ratios
      cases ratios
    | ok area =>
      rw [read] at ratios
      have lists : area.ratioLists = [[0.99, 1.0]] := Option.some.inj ratios
      obtain ⟨again, rects⟩ := (loading_normalises_once handmadeRoot).1 area read
      exact ⟨area, rfl, again, lists, rects⟩
  · have accepted : (decode handmade (some ⟨0.0, 0.0, 1000.0, 800.0⟩) .standard).result.isOk =
        true := by
      decide +kernel
    cases read : (decode handmade (some ⟨0.0, 0.0, 1000.0, 800.0⟩) .standard).result with
    | error error =>
      rw [read] at accepted
      cases accepted
    | ok ws =>
      exact ⟨ws, rfl, (loading_normalises_once handmade).2 _ _ ws read none .standard⟩

end DockLayout.Workspace
