/-!
# Columns of the symbol pane

The starts and widths of the seven columns of the symbol pane. With room for all of them the second
column takes what the others leave; below that the columns share the room as the table says.
-/

namespace FormulaCheck.Viewer

/-- The starts and widths of the columns for each width that is too small for all of them. -/
def narrowColumns : Array (List (Nat × Nat)) :=
  #[[(0, 0), (0, 0), (0, 0), (0, 0), (0, 0), (0, 0), (0, 0)],
    [(0, 0), (1, 0), (1, 0), (1, 0), (1, 0), (1, 0), (1, 0)],
    [(0, 0), (1, 0), (2, 0), (2, 0), (2, 0), (2, 0), (2, 0)],
    [(0, 0), (1, 0), (2, 0), (3, 0), (3, 0), (3, 0), (3, 0)],
    [(0, 0), (1, 0), (2, 0), (3, 0), (4, 0), (4, 0), (4, 0)],
    [(0, 0), (1, 0), (2, 0), (3, 0), (4, 0), (5, 0), (5, 0)],
    [(0, 0), (1, 0), (2, 0), (3, 0), (4, 0), (5, 0), (6, 0)],
    [(0, 0), (1, 1), (3, 0), (4, 0), (5, 0), (6, 0), (7, 0)],
    [(0, 0), (1, 2), (4, 0), (5, 0), (6, 0), (7, 0), (8, 0)],
    [(0, 0), (1, 3), (5, 0), (6, 0), (7, 0), (8, 0), (9, 0)],
    [(0, 0), (1, 4), (6, 0), (7, 0), (8, 0), (9, 0), (10, 0)],
    [(0, 0), (1, 5), (7, 0), (8, 0), (9, 0), (10, 0), (11, 0)],
    [(0, 0), (1, 6), (8, 0), (9, 0), (10, 0), (11, 0), (12, 0)],
    [(0, 0), (1, 7), (9, 0), (10, 0), (11, 0), (12, 0), (13, 0)],
    [(0, 0), (1, 8), (10, 0), (11, 0), (12, 0), (13, 0), (14, 0)],
    [(0, 1), (2, 8), (11, 0), (12, 0), (13, 0), (14, 0), (15, 0)],
    [(0, 2), (3, 8), (12, 0), (13, 0), (14, 0), (15, 0), (16, 0)],
    [(0, 3), (4, 8), (13, 0), (14, 0), (15, 0), (16, 0), (17, 0)],
    [(0, 3), (4, 8), (13, 0), (14, 0), (15, 1), (17, 0), (18, 0)],
    [(0, 3), (4, 8), (13, 0), (14, 1), (16, 0), (17, 1), (19, 0)],
    [(0, 3), (4, 8), (13, 1), (15, 0), (16, 1), (18, 0), (19, 1)],
    [(0, 3), (4, 8), (13, 1), (15, 1), (17, 0), (18, 1), (20, 1)],
    [(0, 3), (4, 8), (13, 1), (15, 1), (17, 1), (19, 1), (21, 1)],
    [(0, 3), (4, 8), (13, 1), (15, 1), (17, 2), (20, 1), (22, 1)],
    [(0, 3), (4, 8), (13, 1), (15, 2), (18, 1), (20, 2), (23, 1)],
    [(0, 3), (4, 8), (13, 2), (16, 1), (18, 2), (21, 1), (23, 2)],
    [(0, 3), (4, 8), (13, 2), (16, 2), (19, 1), (21, 2), (24, 2)],
    [(0, 3), (4, 8), (13, 2), (16, 2), (19, 2), (22, 2), (25, 2)],
    [(0, 3), (4, 8), (13, 2), (16, 2), (19, 3), (23, 2), (26, 2)],
    [(0, 3), (4, 8), (13, 2), (16, 3), (20, 2), (23, 3), (27, 2)],
    [(0, 3), (4, 8), (13, 3), (17, 2), (20, 3), (24, 2), (27, 3)],
    [(0, 3), (4, 8), (13, 3), (17, 3), (21, 2), (24, 3), (28, 3)],
    [(0, 3), (4, 8), (13, 3), (17, 3), (21, 3), (25, 3), (29, 3)],
    [(0, 3), (4, 8), (13, 3), (17, 3), (21, 4), (26, 3), (30, 3)],
    [(0, 3), (4, 8), (13, 3), (17, 4), (22, 3), (26, 4), (31, 3)],
    [(0, 3), (4, 8), (13, 4), (18, 3), (22, 4), (27, 3), (31, 4)],
    [(0, 3), (4, 8), (13, 4), (18, 4), (23, 3), (27, 4), (32, 4)],
    [(0, 3), (4, 8), (13, 4), (18, 4), (23, 4), (28, 4), (33, 4)],
    [(0, 3), (4, 8), (13, 5), (19, 4), (24, 4), (29, 4), (34, 4)],
    [(0, 3), (4, 8), (13, 6), (20, 4), (25, 4), (30, 4), (35, 4)],
    [(0, 3), (4, 8), (13, 7), (21, 4), (26, 4), (31, 4), (36, 4)],
    [(0, 3), (4, 8), (13, 8), (22, 4), (27, 4), (32, 4), (37, 4)],
    [(0, 3), (4, 8), (13, 8), (22, 4), (27, 4), (32, 4), (37, 5)],
    [(0, 3), (4, 8), (13, 8), (22, 4), (27, 4), (32, 4), (37, 6)],
    [(0, 3), (4, 8), (13, 9), (23, 4), (28, 4), (33, 4), (38, 6)],
    [(0, 3), (4, 8), (13, 10), (24, 4), (29, 4), (34, 4), (39, 6)],
    [(0, 3), (4, 8), (13, 11), (25, 4), (30, 4), (35, 4), (40, 6)],
    [(0, 3), (4, 8), (13, 12), (26, 4), (31, 4), (36, 4), (41, 6)]]

/-- The starts and widths of the columns in a room of some width: 3, 13, 4, 4, 4 and 6 cells with
one between columns, and the rest for the second column. -/
def symbolColumns (width : Nat) : List (Nat × Nat) :=
  narrowColumns.getD width
    [(0, 3), (4, width - 40), (width - 35, 13), (width - 21, 4), (width - 16, 4), (width - 11, 4),
     (width - 6, 6)]

end FormulaCheck.Viewer
