import PycListing.Opcode.Table

/-! # Opcodes of the legacy versions

Versions 1.5 to 2.7. The layout of 2.3 is the base; the others differ from it, or from their
neighbours, by a few steps.
-/

namespace PycListing.Opcode.Legacy

def steps23 : List Step :=
  [
    .plain
      [(0, "STOP_CODE"), (1, "POP_TOP"), (2, "ROT_TWO"), (3, "ROT_THREE"), (4, "DUP_TOP"),
       (5, "ROT_FOUR"), (10, "UNARY_POSITIVE"), (11, "UNARY_NEGATIVE"), (12, "UNARY_NOT"),
       (13, "UNARY_CONVERT"), (15, "UNARY_INVERT"), (19, "BINARY_POWER"), (20, "BINARY_MULTIPLY"),
       (21, "BINARY_DIVIDE"), (22, "BINARY_MODULO"), (23, "BINARY_ADD"), (24, "BINARY_SUBTRACT"),
       (25, "BINARY_SUBSCR"), (26, "BINARY_FLOOR_DIVIDE"), (27, "BINARY_TRUE_DIVIDE"),
       (28, "INPLACE_FLOOR_DIVIDE"), (29, "INPLACE_TRUE_DIVIDE"), (30, "SLICE+0"),
       (31, "SLICE+1"), (32, "SLICE+2"), (33, "SLICE+3"), (40, "STORE_SLICE+0"),
       (41, "STORE_SLICE+1"), (42, "STORE_SLICE+2"), (43, "STORE_SLICE+3"),
       (50, "DELETE_SLICE+0"), (51, "DELETE_SLICE+1"), (52, "DELETE_SLICE+2"),
       (53, "DELETE_SLICE+3"), (55, "INPLACE_ADD"), (56, "INPLACE_SUBTRACT"),
       (57, "INPLACE_MULTIPLY"), (58, "INPLACE_DIVIDE"), (59, "INPLACE_MODULO"),
       (60, "STORE_SUBSCR"), (61, "DELETE_SUBSCR"), (62, "BINARY_LSHIFT"), (63, "BINARY_RSHIFT"),
       (64, "BINARY_AND"), (65, "BINARY_XOR"), (66, "BINARY_OR"), (67, "INPLACE_POWER"),
       (68, "GET_ITER"), (70, "PRINT_EXPR"), (71, "PRINT_ITEM"), (72, "PRINT_NEWLINE"),
       (73, "PRINT_ITEM_TO"), (74, "PRINT_NEWLINE_TO"), (75, "INPLACE_LSHIFT"),
       (76, "INPLACE_RSHIFT"), (77, "INPLACE_AND"), (78, "INPLACE_XOR"), (79, "INPLACE_OR"),
       (80, "BREAK_LOOP"), (82, "LOAD_LOCALS"), (83, "RETURN_VALUE"), (84, "IMPORT_STAR"),
       (85, "EXEC_STMT"), (86, "YIELD_VALUE"), (87, "POP_BLOCK"), (88, "END_FINALLY"),
       (89, "BUILD_CLASS"), (92, "UNPACK_SEQUENCE"), (99, "DUP_TOPX"), (102, "BUILD_TUPLE"),
       (103, "BUILD_LIST"), (104, "BUILD_MAP"), (130, "RAISE_VARARGS"), (132, "MAKE_FUNCTION"),
       (133, "BUILD_SLICE"), (134, "MAKE_CLOSURE"), (143, "EXTENDED_ARG")],
    .typed .name
      [(90, "STORE_NAME"), (91, "DELETE_NAME"), (95, "STORE_ATTR"), (96, "DELETE_ATTR"),
       (97, "STORE_GLOBAL"), (98, "DELETE_GLOBAL"), (101, "LOAD_NAME"), (105, "LOAD_ATTR"),
       (107, "IMPORT_NAME"), (108, "IMPORT_FROM"), (116, "LOAD_GLOBAL")],
    .typed .relativeJump
      [(93, "FOR_ITER"), (110, "JUMP_FORWARD"), (111, "JUMP_IF_FALSE"), (112, "JUMP_IF_TRUE"),
       (120, "SETUP_LOOP"), (121, "SETUP_EXCEPT"), (122, "SETUP_FINALLY")],
    .typed .constant [(100, "LOAD_CONST")],
    .typed .comparison [(106, "COMPARE_OP")],
    .typed .absoluteJump [(113, "JUMP_ABSOLUTE"), (119, "CONTINUE_LOOP")],
    .typed .variable [(124, "LOAD_FAST"), (125, "STORE_FAST"), (126, "DELETE_FAST")],
    .typed .callCounts
      [(131, "CALL_FUNCTION"), (140, "CALL_FUNCTION_VAR"), (141, "CALL_FUNCTION_KW"),
       (142, "CALL_FUNCTION_VAR_KW")],
    .typed .cell [(135, "LOAD_CLOSURE"), (136, "LOAD_DEREF"), (137, "STORE_DEREF")]]

/-- Version 2.2, with line-number instructions and the loop instruction that iterators replaced. -/
def steps22 : List Step :=
  steps23 ++ [
    .plain [(127, "SET_LINENO")],
    .typed .relativeJump [(114, "FOR_LOOP")]]

/-- Version 2.1, without iterators, generators and the division operators. -/
def steps21 : List Step :=
  steps22 ++ [
    .remove
      [(26, "BINARY_FLOOR_DIVIDE"), (27, "BINARY_TRUE_DIVIDE"), (28, "INPLACE_FLOOR_DIVIDE"),
       (29, "INPLACE_TRUE_DIVIDE"), (68, "GET_ITER"), (86, "YIELD_VALUE"), (93, "FOR_ITER")]]

/-- Version 2.0, without closures. -/
def steps20 : List Step :=
  steps21 ++ [
    .remove
      [(119, "CONTINUE_LOOP"), (134, "MAKE_CLOSURE"), (135, "LOAD_CLOSURE"), (136, "LOAD_DEREF"),
       (137, "STORE_DEREF")]]

/-- Version 1.5, without augmented assignment and extended arguments. -/
def steps15 : List Step :=
  steps20 ++ [
    .remove
      [(5, "ROT_FOUR"), (55, "INPLACE_ADD"), (56, "INPLACE_SUBTRACT"), (57, "INPLACE_MULTIPLY"),
       (58, "INPLACE_DIVIDE"), (59, "INPLACE_MODULO"), (67, "INPLACE_POWER"),
       (73, "PRINT_ITEM_TO"), (74, "PRINT_NEWLINE_TO"), (75, "INPLACE_LSHIFT"),
       (76, "INPLACE_RSHIFT"), (77, "INPLACE_AND"), (78, "INPLACE_XOR"), (79, "INPLACE_OR"),
       (84, "IMPORT_STAR"), (92, "UNPACK_SEQUENCE"), (99, "DUP_TOPX"), (140, "CALL_FUNCTION_VAR"),
       (141, "CALL_FUNCTION_KW"), (142, "CALL_FUNCTION_VAR_KW"), (143, "EXTENDED_ARG")],
    .plain
      [(92, "UNPACK_TUPLE"), (93, "UNPACK_LIST"), (94, "UNPACK_ARG"), (123, "RESERVE_FAST")],
    .typed .name [(115, "LOAD_LOCAL")]]

/-- Version 2.4, with list comprehensions. -/
def steps24 : List Step :=
  steps23 ++ [
    .plain [(9, "NOP"), (18, "LIST_APPEND")]]

/-- Version 2.5, with `with` statements. -/
def steps25 : List Step :=
  steps24 ++ [
    .plain [(81, "WITH_CLEANUP")]]

def steps26 : List Step :=
  steps25 ++ [
    .plain [(54, "STORE_MAP")]]

/-- Version 2.7, which numbers many opcodes anew. -/
def steps27 : List Step :=
  steps26 ++ [
    .remove [(18, "LIST_APPEND")],
    .plain
      [(104, "BUILD_SET"), (105, "BUILD_MAP"), (145, "EXTENDED_ARG"), (146, "SET_ADD"),
       (147, "MAP_ADD")],
    .typed .number [(94, "LIST_APPEND")],
    .typed .name [(106, "LOAD_ATTR"), (108, "IMPORT_NAME"), (109, "IMPORT_FROM")],
    .typed .comparison [(107, "COMPARE_OP")],
    .typed .absoluteJump
      [(111, "JUMP_IF_FALSE_OR_POP"), (112, "JUMP_IF_TRUE_OR_POP"), (114, "POP_JUMP_IF_FALSE"),
       (115, "POP_JUMP_IF_TRUE")],
    .typed .relativeJump [(143, "SETUP_WITH")]]

end PycListing.Opcode.Legacy
