import Mathlib.Data.List.Basic

/-! The device IDs of radeonkms, which is in maintenance mode: a frozen set. -/
namespace FreebsdLaunchd.KmodLoader

/-- `kRadeonKMSDeviceIDs`, of which all are below 2^16. -/
def radeonKMSDeviceIDs : List Nat :=
  [ 0x1304,0x1305,0x1306,0x1307,0x1309,0x130a,0x130b,0x130c,0x130d,0x130e,0x130f,0x1310,0x1311,0x1312,0x1313,0x1315,
    0x1316,0x1317,0x1318,0x131b,0x131c,0x131d,0x3150,0x3151,0x3152,0x3154,0x3155,0x3e50,0x3e54,0x4136,0x4137,0x4144,
    0x4145,0x4146,0x4147,0x4148,0x4149,0x414a,0x414b,0x4150,0x4151,0x4152,0x4153,0x4154,0x4155,0x4156,0x4237,0x4242,
    0x4336,0x4337,0x4437,0x4966,0x4967,0x4a48,0x4a49,0x4a4a,0x4a4b,0x4a4c,0x4a4d,0x4a4e,0x4a4f,0x4a50,0x4a54,0x4b48,
    0x4b49,0x4b4a,0x4b4b,0x4b4c,0x4c57,0x4c58,0x4c59,0x4c5a,0x4c64,0x4c66,0x4c67,0x4e44,0x4e45,0x4e46,0x4e47,0x4e48,
    0x4e49,0x4e4a,0x4e4b,0x4e50,0x4e51,0x4e52,0x4e53,0x4e54,0x4e56,0x5144,0x5145,0x5146,0x5147,0x5148,0x514c,0x514d,
    0x5157,0x5158,0x5159,0x515a,0x515e,0x5460,0x5462,0x5464,0x5548,0x5549,0x554a,0x554b,0x554c,0x554d,0x554e,0x554f,
    0x5550,0x5551,0x5552,0x5554,0x564a,0x564b,0x564f,0x5652,0x5653,0x5657,0x5834,0x5835,0x5954,0x5955,0x5960,0x5961,
    0x5962,0x5964,0x5965,0x5969,0x5974,0x5975,0x5a41,0x5a42,0x5a61,0x5a62,0x5b60,0x5b62,0x5b63,0x5b64,0x5b65,0x5c61,
    0x5c63,0x5d48,0x5d49,0x5d4a,0x5d4c,0x5d4d,0x5d4e,0x5d4f,0x5d50,0x5d52,0x5d57,0x5e48,0x5e4a,0x5e4b,0x5e4c,0x5e4d,
    0x5e4f,0x6600,0x6601,0x6602,0x6603,0x6604,0x6605,0x6606,0x6607,0x6608,0x6610,0x6611,0x6613,0x6617,0x6620,0x6621,
    0x6623,0x6631,0x6640,0x6641,0x6646,0x6647,0x6649,0x6650,0x6651,0x6658,0x665c,0x665d,0x665f,0x6660,0x6663,0x6664,
    0x6665,0x6667,0x666f,0x6700,0x6701,0x6702,0x6703,0x6704,0x6705,0x6706,0x6707,0x6708,0x6709,0x6718,0x6719,0x671c,
    0x671d,0x671f,0x6720,0x6721,0x6722,0x6723,0x6724,0x6725,0x6726,0x6727,0x6728,0x6729,0x6738,0x6739,0x673e,0x6740,
    0x6741,0x6742,0x6743,0x6744,0x6745,0x6746,0x6747,0x6748,0x6749,0x674a,0x6750,0x6751,0x6758,0x6759,0x675b,0x675d,
    0x675f,0x6760,0x6761,0x6762,0x6763,0x6764,0x6765,0x6766,0x6767,0x6768,0x6770,0x6771,0x6772,0x6778,0x6779,0x677b,
    0x6780,0x6784,0x6788,0x678a,0x6790,0x6791,0x6792,0x6798,0x6799,0x679a,0x679b,0x679e,0x679f,0x67a0,0x67a1,0x67a2,
    0x67a8,0x67a9,0x67aa,0x67b0,0x67b1,0x67b8,0x67b9,0x67ba,0x67be,0x6800,0x6801,0x6802,0x6806,0x6808,0x6809,0x6810,
    0x6811,0x6816,0x6817,0x6818,0x6819,0x6820,0x6821,0x6822,0x6823,0x6824,0x6825,0x6826,0x6827,0x6828,0x6829,0x682a,
    0x682b,0x682c,0x682d,0x682f,0x6830,0x6831,0x6835,0x6837,0x6838,0x6839,0x683b,0x683d,0x683f,0x6840,0x6841,0x6842,
    0x6843,0x6849,0x684c,0x6850,0x6858,0x6859,0x6880,0x6888,0x6889,0x688a,0x688c,0x688d,0x6898,0x6899,0x689b,0x689c,
    0x689d,0x689e,0x68a0,0x68a1,0x68a8,0x68a9,0x68b0,0x68b8,0x68b9,0x68ba,0x68be,0x68bf,0x68c0,0x68c1,0x68c7,0x68c8,
    0x68c9,0x68d8,0x68d9,0x68da,0x68de,0x68e0,0x68e1,0x68e4,0x68e5,0x68e8,0x68e9,0x68f1,0x68f2,0x68f8,0x68f9,0x68fa,
    0x68fe,0x7100,0x7101,0x7102,0x7103,0x7104,0x7105,0x7106,0x7108,0x7109,0x710a,0x710b,0x710c,0x710e,0x710f,0x7140,
    0x7141,0x7142,0x7143,0x7144,0x7145,0x7146,0x7147,0x7149,0x714a,0x714b,0x714c,0x714d,0x714e,0x714f,0x7151,0x7152,
    0x7153,0x715e,0x715f,0x7180,0x7181,0x7183,0x7186,0x7187,0x7188,0x718a,0x718b,0x718c,0x718d,0x718f,0x7193,0x7196,
    0x719b,0x719f,0x71c0,0x71c1,0x71c2,0x71c3,0x71c4,0x71c5,0x71c6,0x71c7,0x71cd,0x71ce,0x71d2,0x71d4,0x71d5,0x71d6,
    0x71da,0x71de,0x7200,0x7210,0x7211,0x7240,0x7243,0x7244,0x7245,0x7246,0x7247,0x7248,0x7249,0x724a,0x724b,0x724c,
    0x724d,0x724e,0x724f,0x7280,0x7281,0x7283,0x7284,0x7287,0x7288,0x7289,0x728b,0x728c,0x7290,0x7291,0x7293,0x7297,
    0x7834,0x7835,0x791e,0x791f,0x793f,0x7941,0x7942,0x796c,0x796d,0x796e,0x796f,0x9400,0x9401,0x9402,0x9403,0x9405,
    0x940a,0x940b,0x940f,0x9440,0x9441,0x9442,0x9443,0x9444,0x9446,0x944a,0x944b,0x944c,0x944e,0x9450,0x9452,0x9456,
    0x945a,0x945b,0x945e,0x9460,0x9462,0x946a,0x946b,0x947a,0x947b,0x9480,0x9487,0x9488,0x9489,0x948a,0x948f,0x9490,
    0x9491,0x9495,0x9498,0x949c,0x949e,0x949f,0x94a0,0x94a1,0x94a3,0x94b1,0x94b3,0x94b4,0x94b5,0x94b9,0x94c0,0x94c1,
    0x94c3,0x94c4,0x94c5,0x94c6,0x94c7,0x94c8,0x94c9,0x94cb,0x94cc,0x94cd,0x9500,0x9501,0x9504,0x9505,0x9506,0x9507,
    0x9508,0x9509,0x950f,0x9511,0x9515,0x9517,0x9519,0x9540,0x9541,0x9542,0x954e,0x954f,0x9552,0x9553,0x9555,0x9557,
    0x955f,0x9580,0x9581,0x9583,0x9586,0x9587,0x9588,0x9589,0x958a,0x958b,0x958c,0x958d,0x958e,0x958f,0x9590,0x9591,
    0x9593,0x9595,0x9596,0x9597,0x9598,0x9599,0x959b,0x95c0,0x95c2,0x95c4,0x95c5,0x95c6,0x95c7,0x95c9,0x95cc,0x95cd,
    0x95ce,0x95cf,0x9610,0x9611,0x9612,0x9613,0x9614,0x9615,0x9616,0x9640,0x9641,0x9642,0x9643,0x9644,0x9645,0x9647,
    0x9648,0x9649,0x964a,0x964b,0x964c,0x964e,0x964f,0x9710,0x9711,0x9712,0x9713,0x9714,0x9715,0x9802,0x9803,0x9804,
    0x9805,0x9806,0x9807,0x9808,0x9809,0x980a,0x9830,0x9831,0x9832,0x9833,0x9834,0x9835,0x9836,0x9837,0x9838,0x9839,
    0x983a,0x983b,0x983c,0x983d,0x983e,0x983f,0x9850,0x9851,0x9852,0x9853,0x9854,0x9855,0x9856,0x9857,0x9858,0x9859,
    0x985a,0x985b,0x985c,0x985d,0x985e,0x985f,0x9900,0x9901,0x9903,0x9904,0x9905,0x9906,0x9907,0x9908,0x9909,0x990a,
    0x990b,0x990c,0x990d,0x990e,0x990f,0x9910,0x9913,0x9917,0x9918,0x9919,0x9990,0x9991,0x9992,0x9993,0x9994,0x9995,
    0x9996,0x9997,0x9998,0x9999,0x999a,0x999b,0x999c,0x999d,0x99a0,0x99a2,0x99a4 ]

end FreebsdLaunchd.KmodLoader
