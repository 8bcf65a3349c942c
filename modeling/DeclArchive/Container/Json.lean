import DeclArchive.Container.Load
import DeclArchive.Stored.Json

/-!
# Containers as JSON

The header, the module names, the number of buckets and the declarations of a container.
-/

namespace DeclArchive

def Widths.toJson (w : Widths) : Json := .object [
  ("pointer_size", .integer w.pointer.toNat),
  ("array_count_size", .integer w.count.toNat)]

def Header.toJson (h : Header) : Json := .object [
  ("config", h.widths.toJson),
  ("module_table_offset", .integer h.moduleTable),
  ("global_table_offset", .integer h.globalTable),
  ("heap_offset", .integer h.heap)]

/-- A container with these declarations. -/
def Container.toJson (c : Container) (declarations : List StoredDeclaration) : Json := .object [
  ("header", c.header.toJson),
  ("modules", .list (c.modules.toList.map .text)),
  ("global_table_capacity", .integer c.capacity),
  ("declarations", .list (declarations.map StoredDeclaration.toJson))]

end DeclArchive
